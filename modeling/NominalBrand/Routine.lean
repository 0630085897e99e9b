-- What a validator does while it decides. A routine reads and writes outside
-- state, may send a value through the checks of another brand, and ends in
-- an outcome. It reaches the event log only through those nested checks.
import NominalBrand.Action

namespace NominalBrand

/-- The steps of a validator with outside state `σ`, errors `ε`, panics `π` and payload `ρ`. -/
inductive Routine (σ ε π ρ : Type) where
  | finish (o : Outcome ε π ρ)
  | read (k : σ → Routine σ ε π ρ)
  | write (s : σ) (k : Routine σ ε π ρ)
  /-- Lets the validated check of another brand run, and goes on with its verdict. -/
  | consult (brand : String) (body : Routine σ ε π ρ)
      (k : Outcome ε π Unit → Routine σ ε π ρ)

namespace Routine

variable {σ ε π ρ : Type}

/-- Runs a routine. A nested check is logged after it came back and before the routine goes on. -/
def run (tracing : Bool) : Routine σ ε π ρ → World σ → Outcome ε π ρ × World σ
  | .finish o, w => (o, w)
  | .read k, w => (k w.state).run tracing w
  | .write s k, w => k.run tracing { w with state := s }
  | .consult brand body k, w =>
    let (o, w) := body.run tracing w
    (k o.verdict).run tracing (w.record tracing brand o)

def escalate (payload : ε → π) : Routine σ ε π ρ → Routine σ ε π ρ
  | .finish o => .finish (o.escalate payload)
  | .read k => .read fun s => (k s).escalate payload
  | .write s k => .write s (k.escalate payload)
  | .consult brand body k => .consult brand body fun o => (k o).escalate payload

/-- Escalation changes how a run ends and nothing that happens on the way. -/
theorem run_escalate (tracing : Bool) (payload : ε → π) (r : Routine σ ε π ρ) (w : World σ) :
    (r.escalate payload).run tracing w =
      ((r.run tracing w).1.escalate payload, (r.run tracing w).2) := by
  induction r generalizing w with
  | finish o => rfl
  | read k ih => exact ih w.state w
  | write s k ih => exact ih _
  | consult brand body k _ ih => simp only [escalate, run]; exact ih _ _

end Routine

end NominalBrand
