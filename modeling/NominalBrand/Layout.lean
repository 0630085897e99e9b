-- How types lie in memory. A brand lies as its base does, and takes no space
-- of its own; an optional value needs more only where no spare bit pattern
-- is left to stand for the absent one.
import NominalBrand.TypeExpr

namespace NominalBrand

structure Layout where
  size : Nat
  align : Nat
  /-- Whether some bit pattern is no value of the type. -/
  spare : Bool := false
deriving DecidableEq

namespace Layout

def empty : Layout := ⟨0, 1, false⟩

def roundUp (align size : Nat) : Nat := (size + align - 1) / align * align

def optionSize (l : Layout) : Nat := if l.spare then l.size else roundUp l.align (l.size + 1)

/-- The layout of a type: that of the named type at its core. -/
def of? (named : String → Option Layout) : TypeExpr → Option Layout
  | .named path => named path
  | .brand base _ _ => of? named base

end Layout

end NominalBrand
