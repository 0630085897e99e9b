-- What a map with branded keys means: one list of entries under bare keys,
-- no two of them equal, in the order in which the keys first came. Where an
-- answer needs the order of the keys, the entries are sorted for it.
import NominalBrand.Keyed.Request
import NominalBrand.Sorting

namespace NominalBrand.Keyed

variable {μ : Type}

/-- Entries under bare keys, in the order in which the keys first came. -/
abbrev Plain (β ν : Type) : Type := List (β × ν)

namespace Plain

variable {mark : μ} {β ν : Type}

def find? (same : β → β → Bool) (key : β) (m : Plain β ν) : Option (β × ν) :=
  List.find? (fun e => same key e.1) m

/-- Puts an entry in; an equal key stays and only gets the new value. -/
def insert (same : β → β → Bool) (key : β) (value : ν) (m : Plain β ν) : Plain β ν :=
  match m.find? same key with
  | none => m ++ [(key, value)]
  | some _ => m.map fun e => if same key e.1 then (e.1, value) else e

def erase (same : β → β → Bool) (key : β) (m : Plain β ν) : Plain β ν :=
  m.filter fun e => !same key e.1

def inOrder (cmp : β → β → Ordering) (m : Plain β ν) : Plain β ν :=
  Sorting.sort (fun a b => cmp a.1 b.1) m

def branded (mark : μ) (e : β × ν) : Brand mark β × ν := (⟨e.1⟩, e.2)

def step (mark : μ) (same : β → β → Bool) (cmp : β → β → Ordering) (m : Plain β ν) :
    Request mark β ν → Answer mark β ν × Plain β ν
  | .insert key value =>
    (.value ((m.find? same key.base).map Prod.snd), m.insert same key.base value)
  | .get key => (.value ((m.find? same key).map Prod.snd), m)
  | .getBrand key => (.value ((m.find? same key.base).map Prod.snd), m)
  | .remove key => (.value ((m.find? same key).map Prod.snd), m.erase same key)
  | .keyOf key => (.entry ((m.find? same key).map (branded mark)), m)
  | .size => (.size m.length, m)
  | .entries => (.entries ((m.inOrder cmp).map (branded mark)), m)
  | .first => (.entry ((m.inOrder cmp).head?.map (branded mark)), m)
  | .last => (.entry ((m.inOrder cmp).getLast?.map (branded mark)), m)
  | .range lo hi =>
    (.entries (((m.inOrder cmp).filter fun e =>
      cmp e.1 lo != .lt && cmp e.1 hi != .gt).map (branded mark)), m)

end Plain

end NominalBrand.Keyed
