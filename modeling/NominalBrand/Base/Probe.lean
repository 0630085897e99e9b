-- A base that contradicts itself. Its comparisons disagree with one another,
-- its copies differ from what was copied, and every call to it is logged, so
-- it shows which of a base's own methods a brand really uses.
import NominalBrand.Base.Whole

namespace NominalBrand

structure Probe where
  key : Whole ⟨true, 64⟩
  label : String
deriving DecidableEq

namespace Probe

/-- The partial order of keys, in which negative keys take no part. -/
def partialOrder (a b : Probe) : Option Ordering :=
  if a.key.value < 0 ∨ b.key.value < 0 then none else some (compare a.key.value b.key.value)

/-- The comparisons: two of them follow from the partial order, the others go their own way. -/
def comparison : Comparison Probe where
  eq a b := .byCall .eq (a.key.value == b.key.value)
  ne _ _ := .byCall .ne true
  partialCmp a b := .byCall .partialCmp (partialOrder a b)
  lt _ _ := .byCall .lt false
  le a b := .byCall .partialCmp (isAtMost (partialOrder a b))
  gt a b := .byCall .partialCmp (isAbove (partialOrder a b))
  ge _ _ := .byCall .ge false

def read? : Datum → Option Probe
  | .list [key, .text label] => (Whole.read? ⟨true, 64⟩ key).map (⟨·, label⟩)
  | _ => none

/-- What a probe offers. The total order is the order of keys turned round. -/
def capabilities : Capabilities Probe where
  comparison := comparison
  ranking := some fun a b => .byCall .cmp (compare b.key.value a.key.value)
  feed := some (.ofOne fun v => .byCall .hash v.key.bytes)
  copy v := .byCall .clone { v with label := v.label ++ "'" }
  debug := some fun _ v => .byCall .debug ("Probe#" ++ Numeral.write v.key.value)
  display := some fun s v => .byCall .display (s.pad v.label)
  view v := ⟨some v.key.value, none, .list [.decimal v.key.value, .text v.label]⟩

end Probe

end NominalBrand
