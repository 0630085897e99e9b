-- A hashed map with branded keys: entries lie in buckets that are chosen by
-- a digest of the bytes that the key feeds to its hasher. Within a bucket
-- keys are told apart by their equality.
import NominalBrand.HashFeed
import NominalBrand.Keyed.Request
import NominalBrand.Comparison
import NominalBrand.Numeral
import NominalBrand.Sorting

namespace NominalBrand.Keyed

variable {μ : Type}

/-- How a hashed map reaches its keys: by equality, and by a digest of the bytes they feed. -/
structure Hashing (β : Type) where
  eq : β → β → Bool
  digest : β → Nat

namespace Hashing

variable {β : Type}

def through (mix : List UInt8 → Nat) (c : Comparison β) (feed : HashFeed β) : Hashing β where
  eq a b := (c.eq a b).value
  digest v := mix (feed.one v).value

def mixBytes (bytes : List UInt8) : Nat :=
  bytes.foldl (fun h b => (h * 31 + b.toNat) % Numeral.bitSpan 32) 17

end Hashing

abbrev Hashed (mark : μ) (β ν : Type) : Type := List (List (Brand mark β × ν))

namespace Hashed

variable {mark : μ} {β ν : Type}

def empty (buckets : Nat) : Hashed mark β ν := List.replicate buckets []

def bucket (m : Hashed mark β ν) (digest : Nat) : List (Brand mark β × ν) :=
  m[digest % m.length]?.getD []

def modify (m : Hashed mark β ν) (digest : Nat)
    (f : List (Brand mark β × ν) → List (Brand mark β × ν)) : Hashed mark β ν :=
  m.set (digest % m.length) (f (m.bucket digest))

/-- Puts an entry into a bucket; an equal key stays and only gets the new value. -/
def put (same : Brand mark β → Bool) (key : Brand mark β) (value : ν) :
    List (Brand mark β × ν) → List (Brand mark β × ν)
  | [] => [(key, value)]
  | (k, v) :: rest => if same k then (k, value) :: rest else (k, v) :: put same key value rest

def find? (same : Brand mark β → Bool) (b : List (Brand mark β × ν)) :
    Option (Brand mark β × ν) := b.find? fun e => same e.1

def drop (same : Brand mark β → Bool) (b : List (Brand mark β × ν)) : List (Brand mark β × ν) :=
  b.eraseP fun e => same e.1

def entries (r : Ranking β) (m : Hashed mark β ν) : List (Brand mark β × ν) :=
  Sorting.sort (fun a b => (r.brand mark).order a.1 b.1) m.flatten

/-- Carries out a request on a hashed map; brands are reached as brands, bases as bases. -/
def step (bases : Hashing β) (brands : Hashing (Brand mark β)) (r : Ranking β)
    (m : Hashed mark β ν) : Request mark β ν → Answer mark β ν × Hashed mark β ν
  | .insert key value =>
    let old := find? (brands.eq key) (m.bucket (brands.digest key))
    (.value (old.map Prod.snd), m.modify (brands.digest key) (put (brands.eq key) key value))
  | .get key =>
    (.value ((find? (fun k => bases.eq key k.base) (m.bucket (bases.digest key))).map Prod.snd), m)
  | .getBrand key =>
    (.value ((find? (brands.eq key) (m.bucket (brands.digest key))).map Prod.snd), m)
  | .remove key =>
    (.value ((find? (fun k => bases.eq key k.base) (m.bucket (bases.digest key))).map Prod.snd),
      m.modify (bases.digest key) (drop fun k => bases.eq key k.base))
  | .keyOf key => (.entry (find? (fun k => bases.eq key k.base) (m.bucket (bases.digest key))), m)
  | .size => (.size m.flatten.length, m)
  | .entries => (.entries (m.entries r), m)
  | .first => (.unsupported, m)
  | .last => (.unsupported, m)
  | .range _ _ => (.unsupported, m)

end Hashed

end NominalBrand.Keyed
