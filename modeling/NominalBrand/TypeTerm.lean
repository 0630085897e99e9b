-- Types as they are written. A written type may leave out the default field
-- and may use aliases. Declarations give each alias its meaning, and each may
-- use all the others, in whatever order they stand.
import NominalBrand.TypeExpr

namespace NominalBrand

inductive TypeTerm where
  | named (path : String)
  | brand (base tag : TypeTerm) (field : Option TypeTerm)
  | declared (name : String)

/-- A declared alias: the brand of a base under a tag of its own, in a field if one is given. -/
structure Declaration where
  name : String
  base : TypeTerm
  tag : String
  field : Option TypeTerm := none

namespace TypeTerm

mutual

def expandWith (meaning : String → Option TypeExpr) : TypeTerm → Option TypeExpr
  | .named path => some (.named path)
  | .brand base tag field => do
    let base ← expandWith meaning base
    let tag ← expandWith meaning tag
    let field ← expandField meaning field
    some (.brand base tag field)
  | .declared name => meaning name

def expandField (meaning : String → Option TypeExpr) : Option TypeTerm → Option TypeExpr
  | none => some TypeExpr.defaultField
  | some field => expandWith meaning field

end

end TypeTerm

namespace Declaration

def term (d : Declaration) : TypeTerm := .brand d.base (.named d.tag) d.field

def find? (declarations : List Declaration) (name : String) : Option Declaration :=
  List.find? (fun d => d.name = name) declarations

theorem of_find? {declarations : List Declaration} {name : String} {d : Declaration}
    (h : find? declarations name = some d) : d ∈ declarations ∧ d.name = name := by
  have hname := List.find?_some h
  exact ⟨List.mem_of_find?_eq_some h, of_decide_eq_true hname⟩

/-- What aliases mean that are declared through aliases, these again through others, and so on, up
to a depth. -/
def meaning (declarations : List Declaration) : Nat → String → Option TypeExpr
  | 0, _ => none
  | depth + 1, name =>
    (find? declarations name).bind fun d => d.term.expandWith (meaning declarations depth)

end Declaration

/-- The type that a written type means under declarations. What goes deeper than there are
declarations goes round in a circle and has no meaning. -/
def TypeTerm.expand (declarations : List Declaration) (t : TypeTerm) : Option TypeExpr :=
  t.expandWith (Declaration.meaning declarations declarations.length)

end NominalBrand
