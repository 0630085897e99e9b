-- An ordered map with branded keys: its entries stand in the order of their
-- keys. A bare base is compared with the bases of the keys, a brand with the
-- keys themselves.
import NominalBrand.Comparison
import NominalBrand.Keyed.Request

namespace NominalBrand.Keyed

variable {μ : Type}

abbrev Ordered (mark : μ) (β ν : Type) : Type := List (Brand mark β × ν)

namespace Ordered

variable {mark : μ} {β ν : Type}

/-- Puts an entry in; a level key stays and only gets the new value. Tells the value before. -/
def insert (cmp : Brand mark β → Brand mark β → Ordering) (key : Brand mark β) (value : ν) :
    Ordered mark β ν → Option ν × Ordered mark β ν
  | [] => (none, [(key, value)])
  | (k, v) :: rest => match cmp key k with
    | .lt => (none, (key, value) :: (k, v) :: rest)
    | .eq => (some v, (k, value) :: rest)
    | .gt =>
      let (old, rest) := insert cmp key value rest
      (old, (k, v) :: rest)

def find? (place : Brand mark β → Ordering) : Ordered mark β ν → Option (Brand mark β × ν)
  | [] => none
  | (k, v) :: rest => match place k with
    | .lt => none
    | .eq => some (k, v)
    | .gt => find? place rest

def erase (place : Brand mark β → Ordering) : Ordered mark β ν → Ordered mark β ν
  | [] => []
  | (k, v) :: rest => match place k with
    | .lt => (k, v) :: rest
    | .eq => rest
    | .gt => (k, v) :: erase place rest

/-- The entries whose keys lie between two bases, both included. -/
def range (cmp : β → β → Ordering) (lo hi : β) (m : Ordered mark β ν) : Ordered mark β ν :=
  (m.dropWhile fun e => cmp e.1.base lo == .lt).takeWhile fun e => cmp e.1.base hi != .gt

def step (r : Ranking β) (m : Ordered mark β ν) :
    Request mark β ν → Answer mark β ν × Ordered mark β ν
  | .insert key value =>
    let (old, m) := m.insert (r.brand mark).order key value
    (.value old, m)
  | .get key => (.value ((m.find? fun k => r.order key k.base).map Prod.snd), m)
  | .getBrand key => (.value ((m.find? fun k => (r.brand mark).order key k).map Prod.snd), m)
  | .remove key =>
    (.value ((m.find? fun k => r.order key k.base).map Prod.snd),
      m.erase fun k => r.order key k.base)
  | .keyOf key => (.entry (m.find? fun k => r.order key k.base), m)
  | .size => (.size m.length, m)
  | .entries => (.entries m, m)
  | .first => (.entry m.head?, m)
  | .last => (.entry m.getLast?, m)
  | .range lo hi => (.entries (m.range r.order lo hi), m)

end Ordered

end NominalBrand.Keyed
