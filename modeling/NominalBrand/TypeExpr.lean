-- Type expressions and their names. A type is a named type, or a brand made
-- of three types: the base that holds the value, the tag that tells brands
-- of one base apart, and the field in which the tag lives.

namespace NominalBrand

inductive TypeExpr where
  | named (path : String)
  | brand (base tag field : TypeExpr)
deriving DecidableEq

namespace TypeExpr

/-- The field of every brand that is written without one. -/
def defaultField : TypeExpr := .named "branded::brand::TypeField"

/-- The full name of a type; a brand leaves its field out when it is the default one. -/
def name : TypeExpr → String
  | .named path => path
  | .brand base tag field =>
    "branded::brand::Brand<" ++ base.name ++ ", " ++ tag.name ++
      (if field = defaultField then "" else ", " ++ field.name) ++ ">"

def base? : TypeExpr → Option TypeExpr
  | .named _ => none
  | .brand base _ _ => some base

def tag? : TypeExpr → Option TypeExpr
  | .named _ => none
  | .brand _ tag _ => some tag

def field? : TypeExpr → Option TypeExpr
  | .named _ => none
  | .brand _ _ field => some field

def depth : TypeExpr → Nat
  | .named _ => 0
  | .brand base _ _ => base.depth + 1

theorem depth_of_base? {t b : TypeExpr} (h : t.base? = some b) : t.depth = b.depth + 1 := by
  cases t with
  | named _ => simp [base?] at h
  | brand base tag field => simp only [base?, Option.some.injEq] at h; subst h; rfl

end TypeExpr

/-- What makes one brand of a base differ from another: its tag and its field. -/
structure Mark where
  tag : TypeExpr
  field : TypeExpr := TypeExpr.defaultField
deriving DecidableEq

namespace Mark

def brandOf (m : Mark) (base : TypeExpr) : TypeExpr := .brand base m.tag m.field

end Mark

end NominalBrand
