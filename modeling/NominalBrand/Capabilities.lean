-- What a type offers to those who use its values. A brand offers exactly
-- what its base offers, each part taken over from the base.
import NominalBrand.Comparison
import NominalBrand.HashFeed
import NominalBrand.Rule
import NominalBrand.Text.Rendering

namespace NominalBrand

/-- What a type offers; what it lacks is absent. -/
structure Capabilities (β : Type) where
  comparison : Comparison β
  ranking : Option (Ranking β)
  feed : Option (HashFeed β)
  copy : β → Logged β
  debug : Option (Text.Rendering β)
  display : Option (Text.Rendering β)
  /-- How a value looks to a rule, and the document it is written as. -/
  view : β → View

namespace Capabilities

variable {β μ : Type}

def brand (c : Capabilities β) (mark : μ) : Capabilities (Brand mark β) where
  comparison := c.comparison.brand mark
  ranking := c.ranking.map (Ranking.brand · mark)
  feed := c.feed.map (HashFeed.brand · mark)
  copy v := do return ⟨← c.copy v.base⟩
  debug := c.debug.map (Text.Rendering.brand · mark)
  display := c.display.map (Text.Rendering.brand · mark)
  view v := c.view v.base

def tower (c : Capabilities β) : (marks : List Mark) → Capabilities (Tower β marks)
  | [] => c
  | mark :: marks => (c.tower marks).brand mark

def form (c : Capabilities β) (v : β) : Datum := (c.view v).form

def order? (c : Capabilities β) : Option (β → β → Ordering) := c.ranking.map Ranking.order

end Capabilities

structure Base where
  Carrier : Type
  type : TypeExpr
  offers : Capabilities Carrier
  read? : Datum → Option Carrier
  /-- Whether equality, order and hash bytes agree with one another. -/
  lawful : Bool := true

end NominalBrand
