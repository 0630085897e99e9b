-- Values in which brands are nested with options, lists and pairs. A shape
-- says how such values are built over a base; taking every brand out of a
-- shape gives the shape of the bare values, and each value has a bare one.
import NominalBrand.Comparison
import NominalBrand.HashFeed
import NominalBrand.Text.Rendering

namespace NominalBrand

/-- How values are built over a base. -/
inductive Shape where
  | base
  | brand (mark : Mark) (inner : Shape)
  | option (inner : Shape)
  | list (item : Shape)
  | pair (first second : Shape)
deriving DecidableEq

namespace Shape

variable {β : Type}

def Carrier (β : Type) : Shape → Type
  | .base => β
  | .brand mark s => Brand mark (s.Carrier β)
  | .option s => Option (s.Carrier β)
  | .list s => List (s.Carrier β)
  | .pair s t => s.Carrier β × t.Carrier β

/-! ## What the values of a shape offer, given what the base offers -/

def comparison (c : Comparison β) : (s : Shape) → Comparison (s.Carrier β)
  | .base => c
  | .brand mark s => (s.comparison c).brand mark
  | .option s => (s.comparison c).option
  | .list s => (s.comparison c).list
  | .pair s t => (s.comparison c).pair (t.comparison c)

def ranking (r : Ranking β) : (s : Shape) → Ranking (s.Carrier β)
  | .base => r
  | .brand mark s => (s.ranking r).brand mark
  | .option s => (s.ranking r).option
  | .list s => (s.ranking r).list
  | .pair s t => (s.ranking r).pair (t.ranking r)

def feed (f : HashFeed β) : (s : Shape) → HashFeed (s.Carrier β)
  | .base => f
  | .brand mark s => (s.feed f).brand mark
  | .option s => (s.feed f).option
  | .list s => (s.feed f).list
  | .pair s t => (s.feed f).pair (t.feed f)

def rendering (r : Text.Rendering β) : (s : Shape) → Text.Rendering (s.Carrier β)
  | .base => r
  | .brand mark s => (s.rendering r).brand mark
  | .option s => (s.rendering r).option
  | .list s => (s.rendering r).list
  | .pair s t => (s.rendering r).pair (t.rendering r)

/-! ## Taking the brands out -/

def erase : Shape → Shape
  | .base => .base
  | .brand _ s => s.erase
  | .option s => .option s.erase
  | .list s => .list s.erase
  | .pair s t => .pair s.erase t.erase

/-- The value with every brand in it replaced by its base. -/
def strip : (s : Shape) → s.Carrier β → s.erase.Carrier β
  | .base, v => v
  | .brand _ s, v => s.strip (Brand.base v)
  | .option s, v => Option.map s.strip v
  | .list s, v => List.map s.strip v
  | .pair s t, v => (s.strip v.1, t.strip v.2)

def isBrandedBase : Shape → Bool
  | .brand _ s => s.erase = .base
  | _ => false

/-- Whether lists of branded bases stand in a shape. Without its brands such a list is a row of
bases, which the base may feed to a hasher in a way of its own. -/
def hasBrandedList : Shape → Bool
  | .base => false
  | .brand _ s => s.hasBrandedList
  | .option s => s.hasBrandedList
  | .list s => s.isBrandedBase || s.hasBrandedList
  | .pair s t => s.hasBrandedList || t.hasBrandedList

end Shape

end NominalBrand
