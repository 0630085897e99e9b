-- What can be asked of a map whose keys are brands. Entries are put in under
-- branded keys; they are looked up by a bare base or by a brand.
import NominalBrand.Brand

namespace NominalBrand.Keyed

variable {μ : Type}

inductive Request (mark : μ) (β ν : Type) where
  | insert (key : Brand mark β) (value : ν)
  | get (key : β)
  | getBrand (key : Brand mark β)
  | remove (key : β)
  | keyOf (key : β)
  | size
  | entries
  | first
  | last
  /-- The entries from one key to another, both included. -/
  | range (lo hi : β)

inductive Answer (mark : μ) (β ν : Type) where
  | value (found : Option ν)
  | entry (found : Option (Brand mark β × ν))
  | size (count : Nat)
  | entries (found : List (Brand mark β × ν))
  | unsupported

def run {M R A : Type} (step : M → R → A × M) : M → List R → List A × M
  | m, [] => ([], m)
  | m, r :: rs =>
    let (a, m) := step m r
    let (as, m) := run step m rs
    (a :: as, m)

end NominalBrand.Keyed
