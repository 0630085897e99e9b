-- Runs over a pool of branders. Operations add branders, copy them, borrow
-- them, look at them and brand values through them; each operation gives one
-- answer, and a refusal or a panic leaves the pool ready for the next one.
import NominalBrand.Brander

namespace NominalBrand

/-- Which brander of the pool is meant, and through how many references it is reached. -/
structure Target where
  index : Nat
  references : Nat := 0
deriving DecidableEq

inductive Operation (ι β : Type) where
  | add (brander : Brander ι)
  | copy (on : Target)
  | refer (on : Target)
  | stored (on : Target)
  /-- Takes the stored validator out of a copy. -/
  | takeStored (on : Target)
  /-- Takes the stored validator out of a brander of the pool, which is used up. -/
  | moveStored (index : Nat)
  | describe (on : Target)
  | check (on : Target) (value : β)
  | brand (on : Target) (value : β)
  | brandInPlace (on : Target) (value : β)
  | brandEach (on : Target) (values : List β)
  /-- Brands a value through a brander that cannot answer with an error. -/
  | call (on : Target) (value : β)
  /-- Brands a value where it stands, through a brander that accepts everything. -/
  | callInPlace (on : Target) (value : β)
  | callEach (on : Target) (values : List β)
  | judge (on : Target) (value : β)
  /-- Runs the validator taken out of a copy. -/
  | judgeTaken (on : Target) (value : β)

inductive Answer (ι ε π β : Type) where
  | unsupported
  | pool (size : Nat)
  | stored (validator : Validator ι)
  | text (shown : String)
  | checked (o : Outcome ε π Unit)
  | branded (mark : Mark) (o : Outcome ε π (Brand mark β))
  | brandedEach (mark : Mark) (o : Outcome ε π (List (Brand mark β)))

abbrev Pool (ι : Type) : Type := List (Brander ι)

namespace Pool

variable {ι σ ε π ρ β : Type}

def find? (pool : Pool ι) (on : Target) : Option (Brander ι) :=
  pool[on.index]?.map fun b => b.borrowed on.references

def answering {α : Type} (pool : Pool ι) (w : World σ) (m : Action σ ε π α)
    (answer : Outcome ε π α → Answer ι ε π β) : Answer ι ε π β × Pool ι × World σ :=
  let (o, w) := m w
  (answer o, pool, w)

def step (R : Roster ι σ ε π ρ β) (tracing : Bool) (pool : Pool ι) (w : World σ) :
    Operation ι β → Answer ι ε π β × Pool ι × World σ
  | .add b => (.pool (pool.length + 1), pool ++ [b], w)
  | .copy on => match pool.find? on with
    | none => (.unsupported, pool, w)
    | some b =>
      let (b, s) := b.duplicate R w.state
      (.pool (pool.length + 1), pool ++ [b], { w with state := s })
  | .refer on => match pool.find? on with
    | none => (.unsupported, pool, w)
    | some b => (.pool (pool.length + 1), pool ++ [.reference b], w)
  | .stored on => match (pool.find? on).bind Brander.stored? with
    | none => (.unsupported, pool, w)
    | some v => (.stored v, pool, w)
  | .takeStored on => match (pool.find? on).bind Brander.stored? with
    | none => (.unsupported, pool, w)
    | some v =>
      let (v, s) := v.duplicate R w.state
      (.stored v, pool, { w with state := s })
  | .moveStored index => match pool[index]?.bind Brander.owned? with
    | none => (.unsupported, pool, w)
    | some v => (.stored v, pool.eraseIdx index, w)
  | .describe on => match (pool.find? on).bind Brander.describe? with
    | none => (.unsupported, pool, w)
    | some shown => (.text shown, pool, w)
  | .check on value => match pool.find? on with
    | none => (.unsupported, pool, w)
    | some b => answering pool w (b.check R tracing value) .checked
  | .brand on value => match pool.find? on with
    | none => (.unsupported, pool, w)
    | some b => answering pool w (b.brand R tracing value) (.branded b.mark)
  | .brandInPlace on value => match pool.find? on with
    | none => (.unsupported, pool, w)
    | some b => answering pool w (b.brandInPlace R tracing value) (.branded b.mark)
  | .brandEach on values => match pool.find? on with
    | none => (.unsupported, pool, w)
    | some b => answering pool w (b.brandEach R tracing values) (.brandedEach b.mark)
  | .call on value => match (pool.find? on).filter Brander.isInfallible with
    | none => (.unsupported, pool, w)
    | some b => answering pool w (b.brand R tracing value) (.branded b.mark)
  | .callInPlace on value => match (pool.find? on).filter Brander.isIdentity with
    | none => (.unsupported, pool, w)
    | some b => answering pool w (b.brandInPlace R tracing value) (.branded b.mark)
  | .callEach on values => match (pool.find? on).filter Brander.isIdentity with
    | none => (.unsupported, pool, w)
    | some b => answering pool w (b.brandEach R tracing values) (.brandedEach b.mark)
  | .judge on value => match (pool.find? on).bind Brander.stored? with
    | none => (.unsupported, pool, w)
    | some v => answering pool w (v.run R tracing value) .checked
  | .judgeTaken on value => match (pool.find? on).bind Brander.stored? with
    | none => (.unsupported, pool, w)
    | some v =>
      let (v, s) := v.duplicate R w.state
      answering pool { w with state := s } (v.run R tracing value) .checked

def run (R : Roster ι σ ε π ρ β) (tracing : Bool) (pool : Pool ι) (w : World σ) :
    List (Operation ι β) → List (Answer ι ε π β) × Pool ι × World σ
  | [] => ([], pool, w)
  | op :: ops =>
    let (answer, pool, w) := step R tracing pool w op
    let (answers, pool, w) := run R tracing pool w ops
    (answer :: answers, pool, w)

end Pool

end NominalBrand
