-- How a step that may refuse ends. A rejection hands an error back to the
-- caller, a panic unwinds past the caller: they are kept apart everywhere.

namespace NominalBrand

/-- A step accepts with a result, rejects with an error, or panics with a payload. -/
inductive Outcome (ε π α : Type) where
  | accepted (result : α)
  | rejected (error : ε)
  | panicked (payload : π)
deriving DecidableEq

namespace Outcome

variable {ε ε' π α α' : Type}

def map (f : α → α') : Outcome ε π α → Outcome ε π α'
  | .accepted a => .accepted (f a)
  | .rejected e => .rejected e
  | .panicked p => .panicked p

def mapError (g : ε → ε') : Outcome ε π α → Outcome ε' π α
  | .accepted a => .accepted a
  | .rejected e => .rejected (g e)
  | .panicked p => .panicked p

def verdict (o : Outcome ε π α) : Outcome ε π Unit := o.map fun _ => ()

/-- A rejection becomes a panic whose payload is made from the error. -/
def escalate (payload : ε → π) : Outcome ε π α → Outcome ε π α
  | .rejected e => .panicked (payload e)
  | o => o

/-- Whether a step that came back accepted; a panic never comes back. -/
def returned? : Outcome ε π α → Option Bool
  | .accepted _ => some true
  | .rejected _ => some false
  | .panicked _ => none

@[simp] theorem verdict_accepted (a : α) :
    (Outcome.accepted a : Outcome ε π α).verdict = .accepted () := rfl

@[simp] theorem verdict_rejected (e : ε) :
    (Outcome.rejected e : Outcome ε π α).verdict = .rejected e := rfl

@[simp] theorem verdict_panicked (p : π) :
    (Outcome.panicked p : Outcome ε π α).verdict = .panicked p := rfl

@[simp] theorem verdict_unit (o : Outcome ε π Unit) : o.verdict = o := by cases o <;> rfl

@[simp] theorem verdict_map (f : α → α') (o : Outcome ε π α) : (o.map f).verdict = o.verdict := by
  cases o <;> rfl

theorem map_mapError (f : α → α') (g : ε → ε') (o : Outcome ε π α) :
    (o.mapError g).map f = (o.map f).mapError g := by cases o <;> rfl

theorem mapError_eq_accepted_iff (g : ε → ε') (o : Outcome ε π α) (a : α) :
    o.mapError g = .accepted a ↔ o = .accepted a := by
  cases o <;> simp [mapError]

theorem escalate_eq_accepted_iff (payload : ε → π) (o : Outcome ε π α) (a : α) :
    o.escalate payload = .accepted a ↔ o = .accepted a := by
  cases o <;> simp [escalate]

theorem escalate_ne_rejected (payload : ε → π) (o : Outcome ε π α) (e : ε) :
    o.escalate payload ≠ .rejected e := by cases o <;> simp [escalate]

end Outcome

end NominalBrand
