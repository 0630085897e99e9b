-- The laws of branders that assert. An assertion raises its rejections, and a
-- validator that decides alike hands the same refusals back as errors. A run
-- through the one and a run through the other go the same way request by request;
-- only, a check that unwinds leaves no event where one that rejects leaves its own.
import NominalBrand.Base.Probe
import NominalBrand.Proofs.EventLog
import Mathlib.Data.List.Forall2

namespace NominalBrand

variable {ι ι' σ ε π π' ρ ρ' α α' β : Type}

/-! ## Panics that are caught -/

/-- The second outcome is the first with its panic caught and handed back as an error. -/
inductive Outcome.CaughtAs : Outcome ε π α → Outcome π π' α → Prop
  | accepted (a : α) : CaughtAs (.accepted a) (.accepted a)
  | panicked (m : π) : CaughtAs (.panicked m) (.rejected m)

/-- The second answer is the first with its panic caught and handed back as an error. -/
inductive Answer.CaughtAs : Answer ι ε π β → Answer ι' π π' β → Prop
  | branded (mark : Mark) {o : Outcome ε π (Brand mark β)} {o' : Outcome π π' (Brand mark β)}
      (h : o.CaughtAs o') : CaughtAs (.branded mark o) (.branded mark o')
  | brandedEach (mark : Mark) {o : Outcome ε π (List (Brand mark β))}
      {o' : Outcome π π' (List (Brand mark β))} (h : o.CaughtAs o') :
      CaughtAs (.brandedEach mark o) (.brandedEach mark o')

/-- The error that an answer hands back, if it hands one back. -/
def Answer.error? : Answer ι ε π β → Option ε
  | .checked (.rejected e) | .branded _ (.rejected e) | .brandedEach _ (.rejected e) => some e
  | _ => none

namespace Outcome.CaughtAs

variable {o : Outcome ε π α} {o' : Outcome π π' α}

theorem map (h : o.CaughtAs o') (f : α → α') : (o.map f).CaughtAs (o'.map f) := by
  cases h with
  | accepted a => exact .accepted (f a)
  | panicked m => exact .panicked m

theorem accepted_iff (h : o.CaughtAs o') (a : α) : o = .accepted a ↔ o' = .accepted a := by
  cases h <;> simp

/-- Only an accepting check has an event that stays. -/
theorem eventOf_eq_filter {o : Outcome ε π Unit} {o' : Outcome π π' Unit} (h : o.CaughtAs o')
    (brand : String) :
    CallTree.eventOf brand o = (CallTree.eventOf brand o').filter Event.accepted := by
  cases h <;> rfl

end Outcome.CaughtAs

theorem Answer.CaughtAs.error?_eq_none {a : Answer ι ε π β} {a' : Answer ι' π π' β}
    (h : a.CaughtAs a') : a.error? = none := by
  cases h with
  | branded mark h | brandedEach mark h => cases h <;> rfl

/-- `y` decides about the same base as `x`, touches the world as `x` does, and hands back as an
error what `x` raises. -/
structure Validator.CaughtAs (R : Roster ι σ ε π ρ β) (x : Validator ι)
    (R' : Roster ι' σ π π' ρ' β) (y : Validator ι') : Prop where
  base : x.base R = y.base R'
  outcome : ∀ v w, ((x.routine R v).run true w).1.verdict.CaughtAs
    ((y.routine R' v).run true w).1.verdict
  world : ∀ v w, ((x.routine R v).run true w).2 = ((y.routine R' v).run true w).2

/-- A brander can be called through references when it can be called itself. -/
theorem Brander.isInfallible_borrowed (b : Brander ι) (n : Nat) :
    (b.borrowed n).isInfallible = b.isInfallible :=
  borrowed_induction (P := fun b' => b'.isInfallible = b.isInfallible) (fun _ h => h) rfl n

/-- A call is a branding, where calls are supported. -/
theorem Pool.step_call {R : Roster ι σ ε π ρ β} {pool : Pool ι} {on : Target} {b : Brander ι}
    (hb : pool.find? on = some b) (hinfallible : b.isInfallible = true) (tracing : Bool)
    (w : World σ) (v : β) :
    step R tracing pool w (.call on v) = step R tracing pool w (.brand on v) := by
  simp only [step, hb, Option.filter, hinfallible, if_true]

theorem Validator.run_ne_rejected (R : Roster ι σ ε π ρ β) {x : Validator ι}
    (hx : x.neverRejects = true) (tracing : Bool) (v : β) (w : World σ) (e : ε) :
    ((x.routine R v).run tracing w).1 ≠ .rejected e := by
  induction x with
  | function h => cases hx
  | infallible h | assertion inner _ =>
    simp only [routine, Routine.run_escalate]
    exact Outcome.escalate_ne_rejected R.alarm _ e
  | reference target ih => exact ih hx

theorem Brander.check_ne_rejected (R : Roster ι σ ε π ρ β) {b : Brander ι}
    (hb : b.isInfallible = true) (tracing : Bool) (v : β) (w : World σ) (e : ε) :
    (b.check R tracing v w).1 ≠ .rejected e := by
  induction b with
  | identity m => simp [check, Check.anything]
  | validated m x =>
    have hrun := Validator.run_ne_rejected R (x := x) hb tracing v w
    simp only [check]
    cases ho : ((x.routine R v).run tracing w).1 with
    | accepted a | panicked p => simp
    | rejected e' => exact absurd ho (hrun e')
  | custom m h => cases hb
  | reference target ih => exact ih hb

/-- A call has no error to answer with, whatever brander it goes through. -/
theorem Pool.error?_step_call (R : Roster ι σ ε π ρ β) (tracing : Bool) (pool : Pool ι)
    (w : World σ) (on : Target) (v : β) :
    (step R tracing pool w (.call on v)).1.error? = none := by
  rcases hb : (pool.find? on).filter Brander.isInfallible with _ | b
  · simp only [step, hb]
    rfl
  · have hcheck := b.check_ne_rejected R (Option.filter_eq_some_iff.mp hb).2 tracing v w
    simp only [step, hb, answering, Brander.brand, Check.brand_apply]
    cases ho : (b.check R tracing v w).1 with
    | accepted u | panicked p => rfl
    | rejected e => exact absurd ho (hcheck e)

/-! ## The events that stay -/

namespace CallTree

/-- The events of a stretch without those of its own checks that rejected. What was logged inside
a check stays. -/
def unrejected : CallTree ε π → List Event
  | .nothing => []
  | .check brand inner ended later =>
    inner.completions ++ (eventOf brand ended).filter Event.accepted ++ later.unrejected

/-- What is kept of a stretch, when it is kept of one part after the other. -/
structure Keeps (kept : CallTree ε π → List Event) : Prop where
  nothing : kept .nothing = []
  append : ∀ s t, kept (s.append t) = kept s ++ kept t

theorem keeps_unrejected : Keeps (unrejected : CallTree ε π → List Event) where
  nothing := rfl
  append s t := by
    induction s with
    | nothing => rfl
    | check brand inner ended later _ ih =>
      simp only [append, unrejected]
      rw [ih]
      simp only [List.append_assoc]

-- The rejection inside stays, and the rejection around it goes.
example : (CallTree.check "Outer" (.check "Inner" .nothing (.rejected 1) .nothing) (.rejected 2)
      .nothing : CallTree Nat Nat).unrejected = [⟨"Inner", false⟩] := rfl

theorem keeps_filter :
    Keeps fun t : CallTree ε π => t.completions.filter Event.accepted where
  nothing := rfl
  append s t := by
    rw [completions_append, List.filter_append]

end CallTree

/-! ## The same checks -/

/-- The second course is the first with its panic caught, and the events of the first are what is
kept of the second. -/
structure Course.CaughtAs (kept : CallTree π π' → List Event) (c : Course σ ε π Unit)
    (c' : Course σ π π' Unit) : Prop where
  outcome : c.outcome.CaughtAs c'.outcome
  state : c.state = c'.state
  events : c.calls.completions = kept c'.calls

section
variable {kept : CallTree π π' → List Event} {f : β → σ → Course σ ε π Unit}
  {f' : β → σ → Course σ π π' Unit}

theorem Course.each_caughtAs (hkept : CallTree.Keeps kept)
    (h : ∀ v s, (f v s).CaughtAs kept (f' v s)) (values : List β) (s : σ) :
    (each f values s).CaughtAs kept (each f' values s) := by
  induction values generalizing s with
  | nil => exact ⟨.accepted (), rfl, hkept.nothing.symm⟩
  | cons v vs ih =>
    have hv := h v s
    by_cases ha : (f v s).outcome = .accepted ()
    · have ha' := (hv.outcome.accepted_iff ()).mp ha
      rw [each_cons_of_accepted ha, each_cons_of_accepted ha', ← hv.state]
      have hrest := ih (f v s).state
      refine ⟨hrest.outcome, hrest.state, ?_⟩
      rw [CallTree.completions_append, hkept.append, hv.events, hrest.events]
    · have ha' : (f' v s).outcome ≠ .accepted () := fun ha' =>
        ha ((hv.outcome.accepted_iff ()).mpr ha')
      rw [each_cons_of_refused ha, each_cons_of_refused ha']
      exact hv

/-- The turn comes to the same values. The worlds agree in the state only, since the logs drift
apart as soon as a check rejects. -/
theorem Check.checked_caughtAs {c : Check σ ε π β} {c' : Check σ π π' β} {tracing : Bool}
    (hc : ∀ v w, c v w = (f v w.state).logged tracing w.events)
    (hc' : ∀ v w, c' v w = (f' v w.state).logged tracing w.events)
    (h : ∀ v s, (f v s).CaughtAs kept (f' v s)) (values : List β) {w w' : World σ}
    (hw : w.state = w'.state) : c.checked w values = c'.checked w' values := by
  induction values generalizing w w' with
  | nil => rfl
  | cons v vs ih =>
    have hv := h v w.state
    have ho : (c v w).1 = (f v w.state).outcome := by rw [hc]; rfl
    have ho' : (c' v w').1 = (f' v w.state).outcome := by rw [hc', hw]; rfl
    by_cases ha : (c v w).1 = .accepted ()
    · have ha' : (c' v w').1 = .accepted () := ho' ▸ (hv.outcome.accepted_iff ()).mp (ho ▸ ha)
      rw [checked_cons_of_accepted ha, checked_cons_of_accepted ha', ih]
      rw [hc, hc', ← hw]
      exact hv.state
    · have ha' : (c' v w').1 ≠ .accepted () := fun ha' =>
        ha (ho ▸ (hv.outcome.accepted_iff ()).mpr (ho' ▸ ha'))
      rw [checked_cons_of_refused ha, checked_cons_of_refused ha']

end

section
variable {R : Roster ι σ ε π ρ β} {x : Validator ι} {R' : Roster ι' σ π π' ρ' β} {y : Validator ι'}

theorem Validator.CaughtAs.course (h : Validator.CaughtAs R x R' y) (v : β) (s : σ) :
    ((x.routine R v).course s).outcome.verdict.CaughtAs
        ((y.routine R' v).course s).outcome.verdict ∧
      ((x.routine R v).course s).state = ((y.routine R' v).course s).state ∧
      ((x.routine R v).course s).calls.completions =
        ((y.routine R' v).course s).calls.completions := by
  have houtcome := h.outcome v ⟨s, []⟩
  have hworld := h.world v ⟨s, []⟩
  rw [Routine.run_eq, Routine.run_eq] at houtcome hworld
  obtain ⟨hstate, hevents⟩ := World.mk.inj hworld
  exact ⟨houtcome, hstate, hevents⟩

theorem Brander.course_caughtAs (h : Validator.CaughtAs R x R' y) (mark : Mark) (v : β) (s : σ) :
    ((validated mark x).course R v s).CaughtAs CallTree.unrejected
      ((validated mark y).course R' v s) := by
  obtain ⟨houtcome, hstate, hevents⟩ := h.course v s
  refine ⟨houtcome, hstate, ?_⟩
  simp only [course, CallTree.completions, CallTree.unrejected]
  rw [hevents, houtcome.eventOf_eq_filter, h.base]

/-- When nothing is rejected inside the validator, the events that stay are all that accepted. -/
theorem Brander.course_caughtAs_of_quiet (h : Validator.CaughtAs R x R' y)
    (hquiet : ∀ v s, ∀ e ∈ ((y.routine R' v).course s).calls.completions, e.accepted = true)
    (mark : Mark) (v : β) (s : σ) :
    ((validated mark x).course R v s).CaughtAs (fun t => t.completions.filter Event.accepted)
      ((validated mark y).course R' v s) := by
  obtain ⟨houtcome, hstate, hevents⟩ := h.course v s
  refine ⟨houtcome, hstate, ?_⟩
  simp only [course, CallTree.completions, List.filter_append]
  rw [hevents, houtcome.eventOf_eq_filter, h.base, List.filter_eq_self.mpr (hquiet v s)]
  rfl

end

/-! ## Runs of requests -/

/-- What can be asked of a brander that asserts. -/
inductive Ask (β : Type) where
  | brand (value : β)
  | brandInPlace (value : β)
  | brandEach (values : List β)
  /-- Brands a value without an error to answer for. -/
  | call (value : β)

namespace Ask

/-- The values to check, front to back. -/
def values : Ask β → List β
  | .brand v | .brandInPlace v | .call v => [v]
  | .brandEach vs => vs

/-- The answer, once the checks ended. -/
def reply (mark : Mark) : Ask β → Outcome ε π Unit → Answer ι ε π β
  | .brand v, o | .brandInPlace v, o | .call v, o => .branded mark (o.map fun _ => ⟨v⟩)
  | .brandEach vs, o => .brandedEach mark (o.map fun _ => Brand.ofList mark vs)

/-- The request to the only brander of a pool, which asserts. -/
def asserting : Ask β → Operation ι β
  | .brand v => .brand ⟨0, 0⟩ v
  | .brandInPlace v => .brandInPlace ⟨0, 0⟩ v
  | .brandEach vs => .brandEach ⟨0, 0⟩ vs
  | .call v => .call ⟨0, 0⟩ v

/-- The request to the only brander of a pool, which may answer with an error. -/
def validating : Ask β → Operation ι β
  | .brand v | .call v => .brand ⟨0, 0⟩ v
  | .brandInPlace v => .brandInPlace ⟨0, 0⟩ v
  | .brandEach vs => .brandEach ⟨0, 0⟩ vs

theorem errand?_asserting (R : Roster ι σ ε π ρ β) (mark : Mark) (x : Validator ι) (s : σ)
    (a : Ask β) :
    Pool.errand? R [.validated mark (.assertion x)] s a.asserting =
      some ⟨.brander (.validated mark (.assertion x)), a.values, s, a.reply mark⟩ := by
  cases a <;> rfl

theorem errand?_validating (R : Roster ι σ ε π ρ β) (mark : Mark) (y : Validator ι) (s : σ)
    (a : Ask β) :
    Pool.errand? R [.validated mark y] s a.validating =
      some ⟨.brander (.validated mark y), a.values, s, a.reply mark⟩ := by
  cases a <;> rfl

theorem reply_caughtAs (a : Ask β) (mark : Mark) {o : Outcome ε π Unit} {o' : Outcome π π' Unit}
    (h : o.CaughtAs o') :
    (a.reply mark o : Answer ι ε π β).CaughtAs (a.reply mark o' : Answer ι' π π' β) := by
  cases a with
  | brand v | brandInPlace v | call v => exact .branded mark (h.map _)
  | brandEach vs => exact .brandedEach mark (h.map _)

end Ask

namespace Pool

variable {R : Roster ι σ ε π ρ β} {x : Validator ι} {R' : Roster ι' σ π π' ρ' β} {y : Validator ι'}
  {kept : CallTree π π' → List Event} {mark : Mark}

theorem course_caughtAs (hkept : CallTree.Keeps kept)
    (h : ∀ v s, ((Brander.validated mark (.assertion x)).course R v s).CaughtAs kept
      ((Brander.validated mark y).course R' v s)) (asks : List (Ask β)) (s : σ) :
    let asserted := course R [.validated mark (.assertion x)] s (asks.map Ask.asserting)
    let validated := course R' [.validated mark y] s (asks.map Ask.validating)
    List.Forall₂ Answer.CaughtAs asserted.answers validated.answers ∧
      asserted.state = validated.state ∧ asserted.calls.completions = kept validated.calls := by
  induction asks generalizing s with
  | nil => exact ⟨.nil, rfl, hkept.nothing.symm⟩
  | cons a asks ih =>
    have heach : (Course.each (Decider.course R (.brander (.validated mark (.assertion x))))
        a.values s).CaughtAs kept
          (Course.each (Decider.course R' (.brander (.validated mark y))) a.values s) :=
      Course.each_caughtAs hkept h a.values s
    simp only [List.map_cons, course, Ask.errand?_asserting, Ask.errand?_validating]
    rw [← heach.state]
    obtain ⟨hanswers, hstate, hevents⟩ := ih
      (Course.each (Decider.course R (.brander (.validated mark (.assertion x)))) a.values s).state
    refine ⟨.cons (a.reply_caughtAs mark heach.outcome) hanswers, hstate, ?_⟩
    rw [CallTree.completions_append, hkept.append, heach.events, hevents]

/-- The two validators are called with the same values. -/
theorem seen_caughtAs (h : Validator.CaughtAs R (.assertion x) R' y) (tracing : Bool)
    (asks : List (Ask β)) {w w' : World σ} (hw : w.state = w'.state) :
    seen R (fun _ => ()) tracing () [.validated mark (.assertion x)] w
        (asks.map Ask.asserting) =
      seen R' (fun _ => ()) tracing () [.validated mark y] w' (asks.map Ask.validating) := by
  induction asks generalizing w w' with
  | nil => rfl
  | cons a asks ih =>
    have he := a.errand?_asserting R mark x w.state
    have he' := a.errand?_validating R' mark y w'.state
    have hcourse := Brander.course_caughtAs h mark
    have hchecked := Check.checked_caughtAs (Brander.check_eq R tracing _)
      (Brander.check_eq R' tracing _) hcourse a.values hw
    have heach := Course.each_caughtAs CallTree.keeps_unrejected hcourse a.values w.state
    simp only [List.map_cons, seen, seenBy, he, he', step_of_errand tracing he,
      step_of_errand tracing he']
    congr 1
    · exact congrArg (List.flatMap _) hchecked
    -- The requests that are left begin in the state that both runs reached.
    · refine ih ?_
      have hleft := Course.check_each (Brander.check_eq R tracing (.validated mark (.assertion x)))
        a.values w
      have hleft' := Course.check_each (Brander.check_eq R' tracing (.validated mark y)) a.values w'
      simp only [Decider.check]
      rw [hleft, hleft', ← hw]
      exact heach.state

end Pool

/-! ## Every assertion has its validator -/

/-- A panic becomes a rejection. -/
def Outcome.caught : Outcome π π α → Outcome π π α
  | .panicked m => .rejected m
  | o => o

/-- A step that never rejects ends as its caught form says. -/
theorem Outcome.caughtAs_caught {o : Outcome π π α} (h : ∀ e, o ≠ .rejected e) :
    o.CaughtAs o.caught := by
  cases o with
  | accepted a => exact .accepted a
  | rejected e => exact absurd rfl (h e)
  | panicked m => exact .panicked m

/-- The same routine, except that it rejects in the end where it would panic. -/
def Routine.caught (r : Routine σ π π ρ) : Routine σ π π ρ := r.andThen fun o => .finish o.caught

/-- Catching the panic changes how a run ends and nothing that happens on the way. -/
theorem Routine.run_caught (tracing : Bool) (r : Routine σ π π ρ) (w : World σ) :
    r.caught.run tracing w = ((r.run tracing w).1.caught, (r.run tracing w).2) :=
  r.run_andThen tracing _ w

/-- The functions that do what validators do and hand back as an error what those raise. -/
def Roster.catching (R : Roster ι σ π π ρ β) : Roster (Validator ι) σ π π ρ β where
  base x := x.base R
  judge x v := (x.routine R v).caught
  alarm := R.alarm
  duplicate x s := x.duplicate R s
  base_duplicate x s := x.base_duplicate R s

theorem Validator.caughtAs_catching (R : Roster ι σ π π ρ β) (x : Validator ι) :
    Validator.CaughtAs R (.assertion x) R.catching (.function (.assertion x)) where
  base := rfl
  outcome v w := by
    simp only [routine, Roster.catching]
    rw [Routine.run_caught, Routine.run_escalate]
    exact (Outcome.caughtAs_caught (Outcome.escalate_ne_rejected R.alarm _)).map _
  world v w := by
    simp only [routine, Roster.catching]
    rw [Routine.run_caught]

/-! ## The law -/

/-- A run through a brander that asserts and the same run through one that validates go together.
A request unwinds where its counterpart is answered with an error, with what it raised as the
error; it hands over the same brands where its counterpart does; and both call their validator with
the same values and leave the same state. The brander that asserts never answers with an error, and
a call is a branding; no call through any brander is answered with an error. The log of the one is
the log of the other without the rejections of the brander's own checks. What another brander logs
inside the validator stays, so all rejections are gone only when none was logged there. -/
theorem a_panic_goes_where_an_error_goes (R : Roster ι σ ε π ρ β) (x : Validator ι)
    (R' : Roster ι' σ π π' ρ' β) (y : Validator ι') (h : Validator.CaughtAs R (.assertion x) R' y)
    (mark : Mark) (tracing : Bool) (w : World σ) (asks : List (Ask β)) :
    let assertion : Pool ι := [.validated mark (.assertion x)]
    let validation : Pool ι' := [.validated mark y]
    let asserted := Pool.run R tracing assertion w (asks.map Ask.asserting)
    let validated := Pool.run R' tracing validation w (asks.map Ask.validating)
    let checks := (Pool.course R' validation w.state (asks.map Ask.validating)).calls
    List.Forall₂ Answer.CaughtAs asserted.1 validated.1 ∧
      asserted.2.2.state = validated.2.2.state ∧
      (∀ record : List (Call Unit β),
        callsTo () (Pool.run (R.recorded fun _ => ()) tracing assertion (w.beside record)
            (asks.map Ask.asserting)).2.2.state.2 =
          callsTo () (Pool.run (R'.recorded fun _ => ()) tracing validation (w.beside record)
            (asks.map Ask.validating)).2.2.state.2) ∧
      (∀ a ∈ asserted.1, a.error? = none) ∧
      (∀ n v w, Pool.step R tracing assertion w (.call ⟨0, n⟩ v) =
        Pool.step R tracing assertion w (.brand ⟨0, n⟩ v)) ∧
      (∀ (pool : Pool ι) (on : Target) (v : β) (w : World σ),
        (Pool.step R tracing pool w (.call on v)).1.error? = none) ∧
      asserted.2.2.events = (if tracing then w.events ++ checks.unrejected else w.events) ∧
      validated.2.2.events = (if tracing then w.events ++ checks.completions else w.events) ∧
      ((∀ v s, ∀ e ∈ ((y.routine R' v).course s).calls.completions, e.accepted = true) →
        checks.unrejected = checks.completions.filter Event.accepted) := by
  intro assertion validation asserted validated checks
  have hcourse := Pool.course_caughtAs CallTree.keeps_unrejected
    (Brander.course_caughtAs h mark) asks w.state
  obtain ⟨hanswers, hstate, hevents⟩ := hcourse
  have hasserted : asserted = _ := Pool.run_eq R tracing assertion w _
  have hvalidated : validated = _ := Pool.run_eq R' tracing validation w _
  rw [hasserted, hvalidated]
  refine ⟨hanswers, hstate, fun record => ?calls, fun a ha => ?noError, fun n v w => ?call,
    fun pool on v w => Pool.error?_step_call R tracing pool w on v, ?log, rfl,
    fun hquiet => ?quiet⟩
  case calls =>
    obtain ⟨calls, hcalls, hrun⟩ := Pool.run_recorded R (fun _ => ()) tracing assertion w record
      (asks.map Ask.asserting)
    obtain ⟨calls', hcalls', hrun'⟩ := Pool.run_recorded R' (fun _ => ()) tracing validation w
      record (asks.map Ask.validating)
    rw [hrun, hrun', World.state_beside, World.state_beside, callsTo_append, callsTo_append, hcalls,
      hcalls', Pool.seen_caughtAs h tracing asks rfl]
  case noError =>
    obtain ⟨i, hi, rfl⟩ := List.mem_iff_getElem.mp ha
    exact (hanswers.get hi (hanswers.length_eq ▸ hi)).error?_eq_none
  case call =>
    exact Pool.step_call (b := (Brander.validated mark (.assertion x)).borrowed n) rfl
      (Brander.isInfallible_borrowed _ n) tracing w v
  case log => rw [← hevents]
  -- The asserting run has one log, and both readings of the other log are equal to it.
  case quiet =>
    exact hevents.symm.trans (Pool.course_caughtAs CallTree.keeps_filter
      (Brander.course_caughtAs_of_quiet h hquiet mark) asks w.state).2.2

namespace Probe

/-- Refuses odd keys. -/
def refusingOddKeys : Roster Unit Unit String String Unit Probe where
  base _ := .named "Probe"
  judge _ v := .finish (if v.key.value % 2 = 0 then .accepted () else .rejected "odd")
  alarm := id
  duplicate i s := (i, s)

/-- An assertion that sends its probe through the brander for even keys, and goes on whatever that
one says. -/
def heedless : Roster Unit Unit String String Unit Probe where
  base _ := .named "Probe"
  judge _ v :=
    let even : Brander Unit := .validated ⟨.named "Even", .defaultField⟩ (.function ())
    even.within refusingOddKeys v fun _ => .finish (.accepted ())
  alarm := id
  duplicate i s := (i, s)

/-- The brander inside rejects, in the one run and in the other, and its event stays in the log of
the assertion: that log has a rejection. The brander that validates cannot be called. -/
theorem a_rejection_inside_stays :
    let mark : Mark := ⟨.named "Any", .defaultField⟩
    let odd : Probe := ⟨⟨3, by decide⟩, "odd"⟩
    let caught : Validator (Validator Unit) := .function (.assertion (.function ()))
    let assertion : Pool Unit := [.validated mark (.assertion (.function ()))]
    let validation : Pool (Validator Unit) := [.validated mark caught]
    let asserted := (Pool.run heedless true assertion ⟨(), []⟩ [.brand ⟨0, 0⟩ odd]).2.2.events
    let validated :=
      (Pool.run heedless.catching true validation ⟨(), []⟩ [.brand ⟨0, 0⟩ odd]).2.2.events
    Validator.CaughtAs heedless (.assertion (.function ())) heedless.catching caught ∧
      asserted.map Event.accepted = [false, true] ∧
      (validated.filter Event.accepted).map Event.accepted = [true] ∧
      asserted ≠ validated.filter Event.accepted ∧
      (Pool.step heedless.catching true validation ⟨(), []⟩ (.call ⟨0, 0⟩ odd)).1 =
        .unsupported := by
  intro mark odd caught assertion validation asserted validated
  have hasserted : asserted.map Event.accepted = [false, true] := rfl
  have hvalidated : (validated.filter Event.accepted).map Event.accepted = [true] := rfl
  refine ⟨Validator.caughtAs_catching heedless (.function ()), hasserted, hvalidated,
    fun hsame => ?_, rfl⟩
  rw [hsame, hvalidated] at hasserted
  cases hasserted

/-- An assertion that counts its calls. It first sends the key through the check of another brand,
which panics at odd keys, and then raises the label at large keys, whatever that check said. -/
def counting : Roster Unit Nat String String Unit Probe where
  base _ := .named "Probe"
  judge _ v := .read fun n => .write (n + 1) <| .consult "Even"
    (.finish (if v.key.value % 2 = 0 then .accepted () else .panicked "odd"))
    fun _ => .finish (if v.key.value < 10 then .accepted () else .panicked v.label)
  alarm := id
  duplicate i s := (i, s)

/-- What catches that assertion. -/
def caughtCounting : Validator (Validator Unit) := .function (.assertion (.function ()))

theorem caughtCounting_logs_no_rejection (v : Probe) (s : Nat) :
    ∀ e ∈ ((caughtCounting.routine counting.catching v).course s).calls.completions,
      e.accepted = true := by
  intro e he
  have hcalls : ((caughtCounting.routine counting.catching v).course s).calls.completions =
      CallTree.eventOf "Even" (if v.key.value % 2 = 0 then .accepted () else .panicked "odd" :
        Outcome String String Unit).verdict := List.append_nil _
  rw [hcalls] at he
  split at he
  · rw [List.mem_singleton.mp he]
  · cases he

/-- The third request unwinds at its second probe, and the last one at once. The log of the
assertion lacks the two events in which the validator rejects. -/
theorem large_probes_unwind :
    let mark : Mark := ⟨.named "Small", .defaultField⟩
    let small : Probe := ⟨⟨4, by decide⟩, "small"⟩
    let large : Probe := ⟨⟨12, by decide⟩, "large"⟩
    let asks : List (Ask Probe) :=
      [.call ⟨⟨3, by decide⟩, "odd"⟩, .brandInPlace small, .brandEach [small, large, small],
        .brand large]
    let asserted := Pool.run counting true [.validated mark (.assertion (.function ()))] ⟨0, []⟩
      (asks.map Ask.asserting)
    let validated := Pool.run counting.catching true [.validated mark caughtCounting] ⟨0, []⟩
      (asks.map Ask.validating)
    Validator.CaughtAs counting (.assertion (.function ())) counting.catching caughtCounting ∧
      List.Forall₂ Answer.CaughtAs asserted.1 validated.1 ∧
      asserted.2.2.state = 5 ∧ validated.2.2.events.length = 9 ∧
      asserted.2.2.events = validated.2.2.events.filter Event.accepted := by
  intro mark small large asks asserted validated
  have hcaught : Validator.CaughtAs counting (.assertion (.function ())) counting.catching
      caughtCounting := Validator.caughtAs_catching counting (.function ())
  obtain ⟨hanswers, _, _, _, _, _, hasserted, hvalidated, hquiet⟩ :=
    a_panic_goes_where_an_error_goes counting (.function ()) counting.catching caughtCounting
      hcaught mark true ⟨0, []⟩ asks
  refine ⟨hcaught, hanswers, rfl, rfl, ?_⟩
  rw [hasserted, hvalidated, hquiet caughtCounting_logs_no_rejection]
  rfl

end Probe

end NominalBrand
