-- Looking at brands from outside: what one branded value shows of itself,
-- what two of them say of each other, and what many of them look like when
-- they are arranged. Every call to the base is told, in the order made.
import NominalBrand.Capabilities
import NominalBrand.Sorting

namespace NominalBrand

structure Inspection (β : Type) where
  copy : β
  /-- The value after it was branded by several marks and unbranded as often. -/
  restored : β
  debug : Option String
  display : Option String
  hash : Option (List UInt8)

structure Encounter (β : Type) where
  replies : List (Operator × Reply)
  later : Option β
  earlier : Option β
  sameHash : Option Bool

structure Arrangement (β : Type) where
  wasSorted : Bool
  last : Option β
  first : Option β
  sorted : List β
  sortedDown : List β
  firstOfRuns : List β
  set : List β
  /-- How many values stand before the needle, and how many do not stand after it. -/
  found : Nat × Nat

namespace Base

def askIf {α α' : Type} (what : Option α) (ask : α → Logged α') : Logged (Option α') :=
  match what with
  | some a => do return some (← ask a)
  | none => .silent none

def inspect (b : Base) (mark : Mark) (marks : List Mark) (v : b.Carrier) :
    Logged (Inspection b.Carrier) := do
  let offers := b.offers.brand mark
  let branded : Brand mark b.Carrier := ⟨v⟩
  let debug ← askIf offers.debug fun r => r {} branded
  let copy ← offers.copy branded
  let display ← askIf offers.display fun r => r {} branded
  let hash ← askIf offers.feed fun f => f.one branded
  return ⟨copy.base, Tower.base marks (Tower.raise v marks), debug, display, hash⟩

def operators (b : Base) : List Operator :=
  [.eq, .ne, .lt, .le, .gt, .ge, .partialCmp] ++ (b.offers.ranking.map fun _ => .cmp).toList

def encounter (b : Base) (mark : Mark) (v w : b.Carrier) : Logged (Encounter b.Carrier) := do
  let offers := b.offers.brand mark
  let x : Brand mark b.Carrier := ⟨v⟩
  let y : Brand mark b.Carrier := ⟨w⟩
  let replies ← Operator.askAll offers.comparison offers.ranking x y b.operators
  let order := if b.lawful then offers.order? else none
  let feed := if b.lawful then offers.feed else none
  return {
    replies := b.operators.zip replies
    later := order.map fun cmp => (Sorting.later cmp x y).base
    earlier := order.map fun cmp => (Sorting.earlier cmp x y).base
    sameHash := feed.map fun f => (f.one x).value == (f.one y).value }

def arrange? (b : Base) (mark : Mark) (values : List b.Carrier) (needle : b.Carrier) :
    Option (Arrangement b.Carrier) :=
  (b.offers.brand mark).order?.map fun cmp =>
    let brands := Brand.ofList mark values
    let sorted := Sorting.sort cmp brands
    { wasSorted := Sorting.isSorted cmp brands
      last := (Sorting.last? cmp brands).map Brand.base
      first := (Sorting.first? cmp brands).map Brand.base
      sorted := Brand.bases sorted
      sortedDown := Brand.bases (Sorting.sortDown cmp brands)
      firstOfRuns := Brand.bases (Sorting.firstOfRuns cmp sorted)
      set := Brand.bases (Sorting.set cmp brands)
      found := Sorting.found cmp ⟨needle⟩ sorted }

end Base

end NominalBrand
