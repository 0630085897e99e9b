-- The laws of the event log. A run is told a second time without any log, as
-- the tree of the validated checks that it made, and the log turns out to be
-- that tree read in the order in which the checks came back. A check that
-- unwound stays in the tree and leaves no event.
import NominalBrand.Proofs.CallRecord

namespace NominalBrand

variable {ι ι' σ ε π ρ α β β' κ : Type}

/-! ## The tree of the checks -/

/-- The validated checks of a stretch of a run, in the order in which they began. -/
inductive CallTree (ε π : Type) where
  | nothing
  /-- A check for a brand, the checks made inside it, how it ended, and the checks after it. -/
  | check (brand : String) (inner : CallTree ε π) (ended : Outcome ε π Unit)
      (later : CallTree ε π)

namespace CallTree

/-- One stretch of a run and then another. -/
def append : CallTree ε π → CallTree ε π → CallTree ε π
  | .nothing, t => t
  | .check brand inner ended later, t => .check brand inner ended (later.append t)

/-- The event of one check: its brand and whether it accepted. A check that unwound has none. -/
def eventOf (brand : String) : Outcome ε π Unit → List Event
  | .accepted _ => [⟨brand, true⟩]
  | .rejected _ => [⟨brand, false⟩]
  | .panicked _ => []

/-- The events of the checks that came back, in the order in which they came back. -/
def completions : CallTree ε π → List Event
  | .nothing => []
  | .check brand inner ended later => inner.completions ++ eventOf brand ended ++ later.completions

/-- The checks that are not inside another, each with its brand and how it ended. -/
def roots : CallTree ε π → List (String × Outcome ε π Unit)
  | .nothing => []
  | .check brand _ ended later => (brand, ended) :: later.roots

/-- How many checks came back. -/
def returned : CallTree ε π → Nat
  | .nothing => 0
  | .check _ inner ended later =>
    inner.returned + (if ended.returned?.isSome then 1 else 0) + later.returned

theorem completions_append (s t : CallTree ε π) :
    (s.append t).completions = s.completions ++ t.completions := by
  induction s with
  | nothing => rfl
  | check brand inner ended later _ ih =>
    simp only [append, completions]
    rw [ih]
    simp only [List.append_assoc]

theorem roots_append (s t : CallTree ε π) : (s.append t).roots = s.roots ++ t.roots := by
  induction s with
  | nothing => rfl
  | check brand inner ended later _ ih =>
    simp only [append, roots]
    rw [ih]
    rfl

/-- There is one event for each check that came back. -/
theorem length_completions (t : CallTree ε π) : t.completions.length = t.returned := by
  induction t with
  | nothing => rfl
  | check brand inner ended later hi hl =>
    have hevent : (eventOf brand ended).length = if ended.returned?.isSome then 1 else 0 := by
      cases ended <;> rfl
    simp only [completions, returned, List.length_append]
    rw [hi, hl, hevent]

end CallTree

theorem World.record_eq (w : World σ) (tracing : Bool) (brand : String) (o : Outcome ε π α) :
    w.record tracing brand o =
      ⟨w.state, if tracing then w.events ++ CallTree.eventOf brand o.verdict else w.events⟩ := by
  cases tracing with
  | false => rfl
  | true => cases o with
    | accepted a | rejected e => rfl
    | panicked p =>
      simp only [if_true, Outcome.verdict_panicked, CallTree.eventOf, List.append_nil]
      rfl

/-! ## Runs without a log -/

/-- How a step goes: its outcome, the outside state that it leaves, and the checks in it. -/
structure Course (σ ε π α : Type) where
  outcome : Outcome ε π α
  state : σ
  calls : CallTree ε π

namespace Course

/-- The same step in a world with a log. -/
def logged (c : Course σ ε π α) (tracing : Bool) (events : List Event) :
    Outcome ε π α × World σ :=
  (c.outcome, ⟨c.state, if tracing then events ++ c.calls.completions else events⟩)

/-- Drops what an accepted step hands over. -/
def verdict (c : Course σ ε π α) : Course σ ε π Unit := ⟨c.outcome.verdict, c.state, c.calls⟩

/-- The checks of a list, front to back, up to the first that does not accept. -/
def each (f : β → σ → Course σ ε π Unit) : List β → σ → Course σ ε π Unit
  | [], s => ⟨.accepted (), s, .nothing⟩
  | v :: vs, s => match (f v s).outcome with
    | .accepted _ =>
      let rest := each f vs (f v s).state
      ⟨rest.outcome, rest.state, (f v s).calls.append rest.calls⟩
    | _ => f v s

theorem each_cons_of_accepted {f : β → σ → Course σ ε π Unit} {v : β} {vs : List β} {s : σ}
    (h : (f v s).outcome = .accepted ()) :
    each f (v :: vs) s = ⟨(each f vs (f v s).state).outcome, (each f vs (f v s).state).state,
      (f v s).calls.append (each f vs (f v s).state).calls⟩ := by
  simp only [each, h]

theorem each_cons_of_refused {f : β → σ → Course σ ε π Unit} {v : β} {vs : List β} {s : σ}
    (h : (f v s).outcome ≠ .accepted ()) : each f (v :: vs) s = f v s := by
  unfold each
  split
  · rename_i u hu
    exact absurd hu h
  · rfl

/-- When a check goes as told, so does the check of a whole list. -/
theorem check_each {c : Check σ ε π β} {f : β → σ → Course σ ε π Unit} {tracing : Bool}
    (h : ∀ v w, c v w = (f v w.state).logged tracing w.events) (values : List β) (w : World σ) :
    c.each values w = (each f values w.state).logged tracing w.events := by
  induction values generalizing w with
  | nil =>
    simp only [each, logged, CallTree.completions]
    cases tracing <;> simp [Check.each]
  | cons v vs ih =>
    by_cases ha : (f v w.state).outcome = .accepted ()
    · have hc : (c v w).1 = .accepted () := by rw [h]; exact ha
      rw [Check.each_cons_of_accepted hc, ih, each_cons_of_accepted ha, h]
      simp only [logged, CallTree.completions_append]
      cases tracing <;> simp
    · have hc : (c v w).1 ≠ .accepted () := by rw [h]; exact ha
      rw [Check.each_cons_of_refused hc, each_cons_of_refused ha, h]

/-- When each value makes one check of a brand, a list makes one for each value whose turn comes,
in order and with its verdict, and none for a later value. -/
theorem roots_each {c : Check σ ε π β} {f : β → σ → Course σ ε π Unit} {tracing : Bool}
    {brand : String} (h : ∀ v w, c v w = (f v w.state).logged tracing w.events)
    (hroots : ∀ v s, (f v s).calls.roots = [(brand, (f v s).outcome)]) (values : List β)
    (w : World σ) :
    (each f values w.state).calls.roots.length = (c.checked w values).length ∧
      ∀ i < (c.checked w values).length,
        (each f values w.state).calls.roots[i]? =
          (c.verdictAt? w values i).map (Prod.mk brand) := by
  induction values generalizing w with
  | nil => exact ⟨rfl, fun i hi => absurd hi (Nat.not_lt_zero i)⟩
  | cons v vs ih =>
    have hv : (c v w).1 = (f v w.state).outcome := by rw [h]; rfl
    have hs : (c v w).2.state = (f v w.state).state := by rw [h]; rfl
    by_cases ha : (c v w).1 = .accepted ()
    · obtain ⟨hlength, hat⟩ := ih (c v w).2
      rw [hs] at hlength hat
      rw [Check.checked_cons_of_accepted ha, each_cons_of_accepted (hv ▸ ha)]
      simp only [CallTree.roots_append, hroots, List.singleton_append, List.length_cons]
      refine ⟨congrArg (· + 1) hlength, fun i hi => ?_⟩
      cases i with
      | zero => rw [List.getElem?_cons_zero, Check.verdictAt?_zero, hv, Option.map_some]
      | succ i =>
        rw [List.getElem?_cons_succ, Check.verdictAt?_succ]
        exact hat i (Nat.lt_of_succ_lt_succ hi)
    · rw [Check.checked_cons_of_refused ha, each_cons_of_refused (hv ▸ ha), hroots]
      refine ⟨rfl, fun i hi => ?_⟩
      obtain rfl : i = 0 := Nat.lt_one_iff.mp hi
      rw [List.getElem?_cons_zero, Check.verdictAt?_zero, hv, Option.map_some]

end Course

/-- How a routine goes. The checks that it lets run are checks of its own inside. -/
def Routine.course : Routine σ ε π ρ → σ → Course σ ε π ρ
  | .finish o, s => ⟨o, s, .nothing⟩
  | .read k, s => (k s).course s
  | .write s k, _ => k.course s
  | .consult brand body k, s =>
    let inner := body.course s
    let rest := (k inner.outcome.verdict).course inner.state
    ⟨rest.outcome, rest.state, .check brand inner.calls inner.outcome.verdict rest.calls⟩

/-- How the check of a brander goes. Only a stored validator makes it a check of the tree. -/
def Brander.course (R : Roster ι σ ε π ρ β) : Brander ι → β → σ → Course σ ε π Unit
  | .identity _, _, s => ⟨.accepted (), s, .nothing⟩
  | .validated m validator, v, s =>
    let inner := (validator.routine R v).course s
    ⟨inner.outcome.verdict, inner.state,
      .check (m.brandOf (validator.base R)).name inner.calls inner.outcome.verdict .nothing⟩
  | .custom _ h, v, s => ((R.judge h v).course s).verdict
  | .reference target, v, s => target.course R v s

/-- How the check of whoever decides goes. A validator called by itself is no check of the tree. -/
def Decider.course (R : Roster ι σ ε π ρ β) : Decider ι → β → σ → Course σ ε π Unit
  | .brander b, v, s => b.course R v s
  | .validator x, v, s => ((x.routine R v).course s).verdict

/-- How a whole run goes. -/
structure RunCourse (ι σ ε π β : Type) where
  answers : List (Answer ι ε π β)
  pool : Pool ι
  state : σ
  calls : CallTree ε π

/-- How requests go, one after the other. Those that ask for no check add nothing to the tree. -/
def Pool.course (R : Roster ι σ ε π ρ β) (pool : Pool ι) (s : σ) :
    List (Operation ι β) → RunCourse ι σ ε π β
  | [] => ⟨[], pool, s, .nothing⟩
  | op :: ops => match errand? R pool s op with
    | some e =>
      let c := Course.each (e.decider.course R) e.values e.state
      let rest := course R pool c.state ops
      ⟨e.reply c.outcome :: rest.answers, rest.pool, rest.state, c.calls.append rest.calls⟩
    | none =>
      let (answer, pool, s) := settle R pool s op
      let rest := course R pool s ops
      ⟨answer :: rest.answers, rest.pool, rest.state, rest.calls⟩

/-! ## The log follows the tree -/

theorem Routine.run_eq (tracing : Bool) (r : Routine σ ε π ρ) (w : World σ) :
    r.run tracing w = (r.course w.state).logged tracing w.events := by
  induction r generalizing w with
  | finish o =>
    simp only [run, course, Course.logged, CallTree.completions]
    cases tracing <;> simp
  | read k ih => exact ih w.state w
  | write s k ih => exact ih { w with state := s }
  | consult brand body k hbody hk =>
    simp only [run, course]
    rw [hbody w, World.record_eq, hk]
    simp only [Course.logged, CallTree.completions]
    cases tracing <;> simp

-- The outer check unwinds after the inner one came back, and the routine survives both.
example : ((Routine.consult "Outer" (.consult "Inner" (.finish (.accepted ())) fun _ =>
      .finish (.panicked 3)) fun _ => .finish (.rejected 5) :
      Routine Unit Nat Nat Unit).course ()).calls.completions = [⟨"Inner", true⟩] := rfl

theorem Brander.check_eq (R : Roster ι σ ε π ρ β) (tracing : Bool) (b : Brander ι) (v : β)
    (w : World σ) : b.check R tracing v w = (b.course R v w.state).logged tracing w.events := by
  induction b with
  | identity m =>
    simp only [check, course, Check.anything, Course.logged, CallTree.completions]
    cases tracing <;> simp
  | validated m validator =>
    simp only [check, course]
    rw [Routine.run_eq, World.record_eq]
    cases tracing <;> simp [Course.logged, CallTree.completions]
  | custom m h =>
    simp only [check, course]
    rw [Routine.run_eq]
    rfl
  | reference target ih => exact ih

theorem Brander.course_borrowed (R : Roster ι σ ε π ρ β) (b : Brander ι) (n : Nat) :
    (b.borrowed n).course R = b.course R :=
  borrowed_induction (P := fun b' => b'.course R = b.course R) (fun _ h => h) rfl n

/-- A stored validator makes one check of its own for each value of a list whose turn comes,
however many references it is reached through. -/
theorem Brander.roots_of_validated (R : Roster ι σ ε π ρ β) (tracing : Bool) (m : Mark)
    (validator : Validator ι) (n : Nat) (values : List β) (w : World σ) :
    let b := (Brander.validated m validator).borrowed n
    let roots := (Course.each (b.course R) values w.state).calls.roots
    let checked := (b.check R tracing).checked w values
    roots.length = checked.length ∧
      ∀ i < checked.length, roots[i]? =
        ((b.check R tracing).verdictAt? w values i).map
          (Prod.mk (m.brandOf (validator.base R)).name) := by
  intro b roots checked
  have hb : b.course R = (Brander.validated m validator).course R := course_borrowed R _ n
  refine Course.roots_each (fun v w => b.check_eq R tracing v w) (fun v s => ?_) values w
  rw [hb]
  rfl

theorem Decider.check_eq (R : Roster ι σ ε π ρ β) (tracing : Bool) (d : Decider ι) (v : β)
    (w : World σ) : d.check R tracing v w = (d.course R v w.state).logged tracing w.events := by
  cases d with
  | brander b => exact b.check_eq R tracing v w
  | validator x =>
    simp only [check, course, Validator.run]
    rw [Routine.run_eq]
    rfl

/-- A run gives the answers, the pool and the outside state that it has without a log. With
tracing it adds the events of the tree to the log, and without tracing it leaves the log alone. -/
theorem Pool.run_eq (R : Roster ι σ ε π ρ β) (tracing : Bool) (pool : Pool ι) (w : World σ)
    (ops : List (Operation ι β)) :
    run R tracing pool w ops =
      let c := course R pool w.state ops
      (c.answers, c.pool,
        ⟨c.state, if tracing then w.events ++ c.calls.completions else w.events⟩) := by
  induction ops generalizing pool w with
  | nil =>
    simp only [run, course, CallTree.completions]
    cases tracing <;> simp
  | cons op ops ih =>
    rcases he : errand? R pool w.state op with _ | e
    · simp only [run, course, he]
      rw [step_of_no_errand tracing he, ih]
    · simp only [run, course, he]
      rw [step_of_errand tracing he, Course.check_each (e.decider.check_eq R tracing), ih]
      simp only [Course.logged, CallTree.completions_append]
      cases tracing <;> simp

/-! ## Branders inside validators -/

/-- Goes on with the outcome of a routine, whatever it is. -/
def Routine.andThen : Routine σ ε π ρ → (Outcome ε π ρ → Routine σ ε π ρ) → Routine σ ε π ρ
  | .finish o, k => k o
  | .read r, k => .read fun s => (r s).andThen k
  | .write s r, k => .write s (r.andThen k)
  | .consult brand body r, k => .consult brand body fun o => (r o).andThen k

theorem Routine.run_andThen (tracing : Bool) (r : Routine σ ε π ρ)
    (k : Outcome ε π ρ → Routine σ ε π ρ) (w : World σ) :
    (r.andThen k).run tracing w = (k (r.run tracing w).1).run tracing (r.run tracing w).2 := by
  induction r generalizing w with
  | finish o => rfl
  | read r ih => exact ih w.state w
  | write s r ih => exact ih { w with state := s }
  | consult brand body r _ ih =>
    simp only [andThen, run]
    exact ih _ _

namespace Brander

/-- A routine that sends a value through a brander and goes on with how its check ended. -/
def within (R : Roster ι' σ ε π ρ β') (b : Brander ι') (v : β')
    (k : Outcome ε π Unit → Routine σ ε π ρ) : Routine σ ε π ρ :=
  match b with
  | .identity _ => k (.accepted ())
  | .validated m validator =>
    .consult (m.brandOf (validator.base R)).name (validator.routine R v) k
  | .custom _ h => (R.judge h v).andThen fun o => k o.verdict
  | .reference target => target.within R v k

/-- A routine that sends a list of values through a brander. -/
def withinEach (R : Roster ι' σ ε π ρ β') (b : Brander ι')
    (k : Outcome ε π Unit → Routine σ ε π ρ) : List β' → Routine σ ε π ρ
  | [] => k (.accepted ())
  | v :: vs => b.within R v fun
    | .accepted _ => b.withinEach R k vs
    | refused => k refused

/-- A brander does the same inside a validator as outside: its check runs, with its event,
and the validator goes on with the verdict. -/
theorem run_within (R : Roster ι' σ ε π ρ β') (tracing : Bool) (b : Brander ι') (v : β')
    (k : Outcome ε π Unit → Routine σ ε π ρ) (w : World σ) :
    (b.within R v k).run tracing w =
      (k (b.check R tracing v w).1).run tracing (b.check R tracing v w).2 := by
  induction b with
  | identity m => rfl
  | validated m validator => rfl
  | custom m h =>
    simp only [within, check]
    exact Routine.run_andThen tracing _ _ w
  | reference target ih => exact ih

theorem run_withinEach (R : Roster ι' σ ε π ρ β') (tracing : Bool) (b : Brander ι')
    (k : Outcome ε π Unit → Routine σ ε π ρ) (values : List β') (w : World σ) :
    (b.withinEach R k values).run tracing w =
      (k ((b.check R tracing).each values w).1).run tracing
        ((b.check R tracing).each values w).2 := by
  induction values generalizing w with
  | nil => rfl
  | cons v vs ih =>
    unfold withinEach
    rw [run_within]
    by_cases h : (b.check R tracing v w).1 = .accepted ()
    · rw [Check.each_cons_of_accepted h, h]
      exact ih _
    · rw [Check.each_cons_of_refused h]
      split
      · rename_i u hu
        exact absurd hu h
      · rfl

theorem within_borrowed (R : Roster ι' σ ε π ρ β') (b : Brander ι') (n : Nat) (v : β')
    (k : Outcome ε π Unit → Routine σ ε π ρ) : (b.borrowed n).within R v k = b.within R v k :=
  borrowed_induction (P := fun b' => b'.within R v k = b.within R v k) (fun _ h => h) rfl n

/-- In the tree the check that goes through a brander has the name of that brander's brand and the
brander's own validator inside. What the outer validator checks next comes after it. -/
theorem calls_of_within (R : Roster ι' σ ε π ρ β') (m : Mark) (x : Validator ι') (n : Nat) (v : β')
    (k : Outcome ε π Unit → Routine σ ε π ρ) (s : σ) :
    let inner := (x.routine R v).course s
    ((((Brander.validated m x).borrowed n).within R v k).course s).calls =
      .check (m.brandOf (x.base R)).name inner.calls inner.outcome.verdict
        ((k inner.outcome.verdict).course inner.state).calls := by
  intro inner
  rw [within_borrowed]
  rfl

end Brander

/-! ## The laws -/

/-- The log of a run holds one event for each validated check that came back, and no other
event: the completions of the tree, in which a check stands after the checks inside it. A list
that goes through a stored validator has one check in the tree for each value whose turn comes.
When a validator sends values through a brander, of values of whatever type, the brander checks
them as it does outside, and each check has its own place in the tree. -/
theorem the_log_tells_the_checks_that_came_back (R : Roster ι σ ε π ρ β) (pool : Pool ι)
    (w : World σ) (ops : List (Operation ι β)) (inside : Roster ι' σ ε π ρ β') :
    let c := Pool.course R pool w.state ops
    Pool.run R true pool w ops =
        (c.answers, c.pool, ⟨c.state, w.events ++ c.calls.completions⟩) ∧
      c.calls.completions.length = c.calls.returned ∧
      (∀ (m : Mark) (validator : Validator ι) (n : Nat) (values : List β) (w : World σ),
        let b := (Brander.validated m validator).borrowed n
        let roots := (Course.each (b.course R) values w.state).calls.roots
        let checked := (b.check R true).checked w values
        roots.length = checked.length ∧
          ∀ i < checked.length, roots[i]? =
            ((b.check R true).verdictAt? w values i).map
              (Prod.mk (m.brandOf (validator.base R)).name)) ∧
      (∀ (b : Brander ι') (k : Outcome ε π Unit → Routine σ ε π ρ) (w : World σ),
        let check := b.check inside true
        (∀ v, (b.within inside v k).run true w =
          (k (check v w).1).run true (check v w).2) ∧
        ∀ values, (b.withinEach inside k values).run true w =
          (k (check.each values w).1).run true (check.each values w).2) ∧
      ∀ (m : Mark) (x : Validator ι') (n : Nat) (v : β') (k : Outcome ε π Unit → Routine σ ε π ρ)
        (s : σ),
        let inner := (x.routine inside v).course s
        ((((Brander.validated m x).borrowed n).within inside v k).course s).calls =
          .check (m.brandOf (x.base inside)).name inner.calls inner.outcome.verdict
            ((k inner.outcome.verdict).course inner.state).calls := by
  refine ⟨Pool.run_eq R true pool w ops, CallTree.length_completions _, ?outside, ?within, ?tree⟩
  case outside =>
    intro m validator n values w
    exact Brander.roots_of_validated R true m validator n values w
  case within =>
    intro b k w
    exact ⟨fun v => b.run_within inside true v k w,
      fun values => b.run_withinEach inside true k values w⟩
  case tree =>
    intro m x n v k s
    exact Brander.calls_of_within inside m x n v k s

/-- A run with tracing and the same run without it give the same answers, pool and outside
state, and make the same calls in the same order. Only the traced run adds to the log. -/
theorem tracing_changes_only_the_log (R : Roster ι σ ε π ρ β) (label : ι → κ) (pool : Pool ι)
    (w : World σ) (ops : List (Operation ι β)) :
    let traced := Pool.run R true pool w ops
    let silent := Pool.run R false pool w ops
    traced.1 = silent.1 ∧ traced.2.1 = silent.2.1 ∧ silent.2.2.events = w.events ∧
      (∃ events, traced.2.2 = { silent.2.2 with events := w.events ++ events }) ∧
      ∀ record : List (Call κ β), ∃ calls,
        Pool.run (R.recorded label) true pool (w.beside record) ops =
          (traced.1, traced.2.1, traced.2.2.beside (record ++ calls)) ∧
        Pool.run (R.recorded label) false pool (w.beside record) ops =
          (silent.1, silent.2.1, silent.2.2.beside (record ++ calls)) := by
  intro traced silent
  have ht : traced = _ := Pool.run_eq R true pool w ops
  have hs : silent = _ := Pool.run_eq R false pool w ops
  refine ⟨?_, ?_, ?_, ⟨(Pool.course R pool w.state ops).calls.completions, ?_⟩, fun record => ?_⟩
  · rw [ht, hs]
  · rw [ht, hs]
  · rw [hs]
    rfl
  · rw [ht, hs]
    rfl
  classical
  obtain ⟨calls, _, htraced⟩ := Pool.run_recorded R label true pool w record ops
  obtain ⟨calls', _, hsilent⟩ := Pool.run_recorded R label false pool w record ops
  have hstate : (Pool.run (R.recorded label) true pool (w.beside record) ops).2.2.state =
      (Pool.run (R.recorded label) false pool (w.beside record) ops).2.2.state := by
    rw [Pool.run_eq, Pool.run_eq]
  rw [htraced, hsilent] at hstate
  have hcalls : calls = calls' := List.append_cancel_left (Prod.mk.inj hstate).2
  exact ⟨calls, htraced, hcalls ▸ hsilent⟩

end NominalBrand
