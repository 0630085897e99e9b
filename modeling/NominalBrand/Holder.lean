-- A program that holds values of one brand: single ones, lists of them, and
-- sets and maps with branded keys. It gets them from branders, copies them,
-- takes their brands off, and moves them about. It has no other way to a
-- value of the brand.
import NominalBrand.BranderPool
import NominalBrand.Capabilities
import NominalBrand.Keyed.Hashed
import NominalBrand.Keyed.Ordered

namespace NominalBrand

variable {ι σ ε π ρ β : Type}

/-- A container of branded values. A map may keep a branded value under a key as well; a set is a
map that keeps nothing under its keys. -/
inductive Store (mark : Mark) (β : Type) where
  | list (values : List (Brand mark β))
  | ordered (entries : Keyed.Ordered mark β (Option (Brand mark β)))
  | hashed (buckets : Keyed.Hashed mark β (Option (Brand mark β)))

structure Equipment (ι σ ε π ρ β : Type) where
  roster : Roster ι σ ε π ρ β
  tracing : Bool
  offers : Capabilities β
  ranking : Ranking β
  feed : HashFeed β
  mix : List UInt8 → Nat

def Equipment.copy {mark : Mark} (q : Equipment ι σ ε π ρ β) (v : Brand mark β) : Brand mark β :=
  ((q.offers.brand mark).copy v).value

namespace Store

variable {mark : Mark}

def entryBrands (e : Brand mark β × Option (Brand mark β)) : List (Brand mark β) :=
  e.1 :: e.2.toList

def brands : Store mark β → List (Brand mark β)
  | .list values => values
  | .ordered entries => entries.flatMap entryBrands
  | .hashed buckets => buckets.flatten.flatMap entryBrands

def map (f : Brand mark β → Brand mark β) : Store mark β → Store mark β
  | .list values => .list (values.map f)
  | .ordered entries => .ordered (entries.map fun e => (f e.1, e.2.map f))
  | .hashed buckets => .hashed (buckets.map fun b => b.map fun e => (f e.1, e.2.map f))

def request? (q : Equipment ι σ ε π ρ β) :
    Store mark β → Keyed.Request mark β (Option (Brand mark β)) →
      Option (Keyed.Answer mark β (Option (Brand mark β)) × Store mark β)
  | .list _, _ => none
  | .ordered m, r =>
    let (answer, m) := Keyed.Ordered.step q.ranking m r
    some (answer, .ordered m)
  | .hashed m, r =>
    let bases := Keyed.Hashing.through q.mix q.offers.comparison q.feed
    let brands := Keyed.Hashing.through q.mix (q.offers.comparison.brand mark) (q.feed.brand mark)
    let (answer, m) := Keyed.Hashed.step bases brands q.ranking m r
    some (answer, .hashed m)

def handed : Keyed.Answer mark β (Option (Brand mark β)) → List (Brand mark β)
  | .value found => found.join.toList
  | .entry found => found.toList.flatMap entryBrands
  | .size _ | .entries _ | .unsupported => []

def push? (v : Brand mark β) : Store mark β → Option (Store mark β)
  | .list values => some (.list (values ++ [v]))
  | .ordered _ | .hashed _ => none

def takeAt? (index : Nat) : Store mark β → Option (Brand mark β × Store mark β)
  | .list values => values[index]?.map fun v => (v, .list (values.eraseIdx index))
  | .ordered _ | .hashed _ => none

/-- Puts a key into a map, and a value under it. Tells what the map hands back: the value that was
there. An equal key that is there already stays, and the new one is gone. -/
def insert? (q : Equipment ι σ ε π ρ β) (key : Brand mark β) (value : Option (Brand mark β))
    (s : Store mark β) : Option (List (Brand mark β) × Store mark β) :=
  (s.request? q (.insert key value)).map fun (answer, s) => (handed answer, s)

def remove? (q : Equipment ι σ ε π ρ β) (key : β) (s : Store mark β) :
    Option (List (Brand mark β) × Store mark β) := do
  let (answer, s) ← s.request? q (.keyOf key)
  let (_, s) ← s.request? q (.remove key)
  return (handed answer, s)

end Store

/-- What a program can do. Places are counted from zero, and a place where nothing fitting is makes
a move do nothing. -/
inductive Move (ι β : Type) where
  | ask (op : Operation ι β)
  | unbrand (single : Nat)
  /-- Brands a value again whose brand was taken off. -/
  | rebrand (on : Target) (bare : Nat)
  /-- Copies a single value as its type does. -/
  | clone (single : Nat)
  /-- Copies a single value bit by bit. -/
  | copy (single : Nat)
  | discard (single : Nat)
  | makeList
  | makeOrdered
  | makeHashed (buckets : Nat)
  | cloneStore (store : Nat)
  | discardStore (store : Nat)
  | push (single store : Nat)
  | takeAt (store index : Nat)
  /-- Moves a single value into a map as a key, and maybe another one under it. -/
  | insert (key : Nat) (value : Option Nat) (store : Nat)
  | remove (store : Nat) (key : β)

structure Hands (mark : Mark) (β : Type) where
  singles : List (Brand mark β)
  stores : List (Store mark β)
  bares : List β

namespace Hands

variable {mark : Mark}

def empty : Hands mark β := ⟨[], [], []⟩

def brands (s : Hands mark β) : List (Brand mark β) := s.singles ++ s.stores.flatMap Store.brands

def hold (s : Hands mark β) (values : List (Brand mark β)) : Hands mark β :=
  { s with singles := s.singles ++ values }

def addStore (s : Hands mark β) (store : Store mark β) : Hands mark β :=
  { s with stores := s.stores ++ [store] }

def setStore (s : Hands mark β) (place : Nat) (store : Store mark β) : Hands mark β :=
  { s with stores := s.stores.set place store }

def take? (s : Hands mark β) (single : Nat) : Option (Brand mark β × Hands mark β) :=
  s.singles[single]?.map fun v => (v, { s with singles := s.singles.eraseIdx single })

def takeAny? (s : Hands mark β) : Option Nat → Option (Option (Brand mark β) × Hands mark β)
  | none => some (none, s)
  | some single => (s.take? single).map fun (v, s) => (some v, s)

/-- Keeps the brands of an answer that have the mark: one as a single value, several as a list. -/
def keep (s : Hands mark β) : Answer ι ε π β → Hands mark β
  | .branded m (.accepted v) => if m = mark then s.hold [⟨v.base⟩] else s
  | .brandedEach m (.accepted vs) =>
    if m = mark then s.addStore (.list (Brand.ofList mark (Brand.bases vs))) else s
  | _ => s

def carry? (q : Equipment ι σ ε π ρ β) (s : Hands mark β) : Move ι β → Option (Hands mark β)
  | .ask _ | .rebrand _ _ => none
  | .unbrand i => do
    let (v, s) ← s.take? i
    return { s with bares := s.bares ++ [v.base] }
  | .clone i => do return s.hold [q.copy (← s.singles[i]?)]
  | .copy i => do return s.hold [← s.singles[i]?]
  | .discard i => do
    let (_, s) ← s.take? i
    return s
  | .makeList => some (s.addStore (.list []))
  | .makeOrdered => some (s.addStore (.ordered []))
  | .makeHashed buckets => some (s.addStore (.hashed (Keyed.Hashed.empty buckets)))
  | .cloneStore j => do return s.addStore ((← s.stores[j]?).map q.copy)
  | .discardStore j => some { s with stores := s.stores.eraseIdx j }
  | .push i j => do
    let (v, s) ← s.take? i
    let store ← (← s.stores[j]?).push? v
    return s.setStore j store
  | .takeAt j index => do
    let (v, store) ← (← s.stores[j]?).takeAt? index
    return (s.setStore j store).hold [v]
  | .insert i under j => do
    let (key, s) ← s.take? i
    let (value, s) ← s.takeAny? under
    let (back, store) ← (← s.stores[j]?).insert? q key value
    return (s.setStore j store).hold back
  | .remove j key => do
    let (out, store) ← (← s.stores[j]?).remove? q key
    return (s.setStore j store).hold out

end Hands

structure Holder (ι σ : Type) (mark : Mark) (β : Type) where
  pool : Pool ι
  world : World σ
  hands : Hands mark β

namespace Holder

variable {mark : Mark}

def ask (q : Equipment ι σ ε π ρ β) (s : Holder ι σ mark β) (op : Operation ι β) :
    Answer ι ε π β × Holder ι σ mark β :=
  let (answer, pool, world) := Pool.step q.roster q.tracing s.pool s.world op
  (answer, ⟨pool, world, s.hands.keep answer⟩)

/-- Makes one move. Tells the answer of the branders, if they were asked. -/
def step (q : Equipment ι σ ε π ρ β) (s : Holder ι σ mark β) (move : Move ι β) :
    Option (Answer ι ε π β) × Holder ι σ mark β :=
  match move with
  | .ask op =>
    let (answer, s) := s.ask q op
    (some answer, s)
  | .rebrand on i => match s.hands.bares[i]? with
    | none => (none, s)
    | some v =>
      let hands := { s.hands with bares := s.hands.bares.eraseIdx i }
      let (answer, s) := { s with hands }.ask q (.brand on v)
      (some answer, s)
  | move => (none, { s with hands := (s.hands.carry? q move).getD s.hands })

def run (q : Equipment ι σ ε π ρ β) (s : Holder ι σ mark β) (moves : List (Move ι β)) :
    Holder ι σ mark β := moves.foldl (fun s move => (s.step q move).2) s

end Holder

end NominalBrand
