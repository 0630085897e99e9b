-- Steps that touch the outside world. A step may read and change outside
-- state, may write events to a log, and ends in an outcome; whatever it did
-- before it refused stays done.
import NominalBrand.Outcome

namespace NominalBrand

structure Event where
  brand : String
  accepted : Bool
deriving DecidableEq

/-- What a step can touch: the outside state, and the events so far in order. -/
structure World (σ : Type) where
  state : σ
  events : List Event

namespace World

variable {σ ε π α : Type}

/-- Logs how a check ended. With tracing off nothing is logged, and a panic is never logged. -/
def record (w : World σ) (tracing : Bool) (brand : String) (o : Outcome ε π α) : World σ :=
  match tracing, o with
  | true, .accepted _ => { w with events := w.events ++ [⟨brand, true⟩] }
  | true, .rejected _ => { w with events := w.events ++ [⟨brand, false⟩] }
  | true, .panicked _ => w
  | false, _ => w

@[simp] theorem state_record (w : World σ) (tracing : Bool) (brand : String)
    (o : Outcome ε π α) : (w.record tracing brand o).state = w.state := by
  unfold record; split <;> rfl

end World

/-- A step over outside state `σ` that rejects with `ε`, panics with `π` and accepts with `α`. -/
def Action (σ ε π α : Type) : Type := World σ → Outcome ε π α × World σ

namespace Action

variable {σ ε π α α' : Type}

def done (o : Outcome ε π α) : Action σ ε π α := fun w => (o, w)

def andThen (m : Action σ ε π α) (k : α → Action σ ε π α') : Action σ ε π α' := fun w =>
  match m w with
  | (.accepted a, w) => k a w
  | (.rejected e, w) => (.rejected e, w)
  | (.panicked p, w) => (.panicked p, w)

instance : Monad (Action σ ε π) where
  pure a := done (.accepted a)
  bind := andThen

@[simp] theorem pure_apply (a : α) (w : World σ) :
    (pure a : Action σ ε π α) w = (.accepted a, w) := rfl

theorem bind_apply (m : Action σ ε π α) (k : α → Action σ ε π α') (w : World σ) :
    (m >>= k) w = andThen m k w := rfl

theorem bind_of_accepted {m : Action σ ε π α} {w w' : World σ} {a : α}
    (h : m w = (.accepted a, w')) (k : α → Action σ ε π α') : (m >>= k) w = k a w' := by
  rw [bind_apply]
  unfold andThen
  rw [h]

/-- A refused step ends the steps after it, whatever they would have handed over. -/
theorem bind_of_refused {m : Action σ ε π α} {w w' : World σ} {o : Outcome ε π Unit}
    (ho : o ≠ .accepted ()) {f : Unit → α} (h : m w = (o.map f, w')) (k : α → Action σ ε π α')
    (g : Unit → α') : (m >>= k) w = (o.map g, w') := by
  rw [bind_apply]
  unfold andThen
  rw [h]
  cases o with
  | accepted u => exact absurd rfl ho
  | rejected e => rfl
  | panicked p => rfl

end Action

end NominalBrand
