-- What becomes of a validator's payloads and errors. A payload goes nowhere,
-- and an error goes into the one answer that it refuses. So two families of
-- validators that decide and act alike, whatever payloads and errors they
-- hand over, make the same run, in which one error stands for another. A
-- caller who does not look into errors asks the same of both.
import Mathlib.Data.List.Forall2
import NominalBrand.Proofs.CallRecord

namespace NominalBrand

variable {ι σ ε ε' π ρ ρ' β κ : Type}

/-! ## Outcomes -/

namespace Outcome

variable {α α' : Type}

theorem verdict_translated (f : α → α') (g : ε → ε') (o : Outcome ε π α) :
    ((o.map f).mapError g).verdict = o.verdict.mapError g := by cases o <;> rfl

/-- Alarms that make one panic of an error and of its translation end a step alike. -/
theorem escalate_translated (f : α → α') {g : ε → ε'} {alarm : ε → π} {alarm' : ε' → π}
    (h : ∀ e, alarm' (g e) = alarm e) (o : Outcome ε π α) :
    ((o.map f).mapError g).escalate alarm' = ((o.escalate alarm).map f).mapError g := by
  cases o with
  | accepted a => rfl
  | rejected e => exact congrArg panicked (h e)
  | panicked p => rfl

end Outcome

theorem World.record_translated {α α' : Type} (w : World σ) (tracing : Bool) (brand : String)
    (f : α → α') (g : ε → ε') (o : Outcome ε π α) :
    w.record tracing brand ((o.map f).mapError g) = w.record tracing brand o := by
  cases tracing <;> cases o <;> rfl

/-- The answer with another error in place of the one that it tells. -/
def Answer.mapError (g : ε → ε') : Answer ι ε π β → Answer ι ε' π β
  | .unsupported => .unsupported
  | .pool size => .pool size
  | .stored validator => .stored validator
  | .text shown => .text shown
  | .checked o => .checked (o.mapError g)
  | .branded mark o => .branded mark (o.mapError g)
  | .brandedEach mark o => .brandedEach mark (o.mapError g)

/-! ## Validators that differ in what they hand over -/

/-- The second roster's functions change the world as the first one's do and decide the same of
every value in every world. Their payloads are those of the first under `f`, and their errors
those of the first under `g`. -/
structure Roster.Translates (tracing : Bool) (f : ρ → ρ') (g : ε → ε')
    (R : Roster ι σ ε π ρ β) (R' : Roster ι σ ε' π ρ' β) : Prop where
  base : R'.base = R.base
  duplicate : R'.duplicate = R.duplicate
  judge : ∀ h v w, (R'.judge h v).run tracing w =
    ((((R.judge h v).run tracing w).1.map f).mapError g, ((R.judge h v).run tracing w).2)

/-- Where a validator makes panics of errors, it makes one panic of an error and of its
translation. -/
def Validator.KeepsAlarm (g : ε → ε') (R : Roster ι σ ε π ρ β) (R' : Roster ι σ ε' π ρ' β)
    (x : Validator ι) : Prop :=
  x.neverRejects = true → ∀ e, R'.alarm (g e) = R.alarm e

/-- The validator that a brander stores, if it stores one, keeps its alarm. -/
def Brander.KeepsAlarm (g : ε → ε') (R : Roster ι σ ε π ρ β) (R' : Roster ι σ ε' π ρ' β)
    (b : Brander ι) : Prop :=
  ∀ x, b.stored? = some x → x.KeepsAlarm g R R'

/-- A check that ends as another one does, with an error of its own in place of the other's. -/
def Check.Translates (g : ε → ε') (c : Check σ ε π β) (c' : Check σ ε' π β) : Prop :=
  ∀ v w, c' v w = ((c v w).1.mapError g, (c v w).2)

namespace Check.Translates

variable {g : ε → ε'} {c : Check σ ε π β} {c' : Check σ ε' π β}

theorem accepted_iff (h : c.Translates g c') (v : β) (w : World σ) :
    (c' v w).1 = .accepted () ↔ (c v w).1 = .accepted () := by
  rw [h v w]
  exact Outcome.mapError_eq_accepted_iff g _ ()

theorem each (h : c.Translates g c') (values : List β) (w : World σ) :
    c'.each values w = ((c.each values w).1.mapError g, (c.each values w).2) := by
  induction values generalizing w with
  | nil => rfl
  | cons v vs ih =>
    by_cases ha : (c v w).1 = .accepted ()
    · rw [each_cons_of_accepted ha, each_cons_of_accepted ((h.accepted_iff v w).mpr ha), ih, h v w]
    · have ha' : (c' v w).1 ≠ .accepted () := fun hc => ha ((h.accepted_iff v w).mp hc)
      rw [each_cons_of_refused ha, each_cons_of_refused ha', h v w]

theorem checked (h : c.Translates g c') (values : List β) (w : World σ) :
    c'.checked w values = c.checked w values := by
  induction values generalizing w with
  | nil => rfl
  | cons v vs ih =>
    by_cases ha : (c v w).1 = .accepted ()
    · rw [checked_cons_of_accepted ha, checked_cons_of_accepted ((h.accepted_iff v w).mpr ha), ih,
        h v w]
    · have ha' : (c' v w).1 ≠ .accepted () := fun hc => ha ((h.accepted_iff v w).mp hc)
      rw [checked_cons_of_refused ha, checked_cons_of_refused ha']

end Check.Translates

section
variable {tracing : Bool} {f : ρ → ρ'} {g : ε → ε'} {R : Roster ι σ ε π ρ β}
  {R' : Roster ι σ ε' π ρ' β}

theorem Validator.run_translated (h : R.Translates tracing f g R') {x : Validator ι}
    (hx : x.KeepsAlarm g R R') (v : β) (w : World σ) :
    (x.routine R' v).run tracing w =
      ((((x.routine R v).run tracing w).1.map f).mapError g,
        ((x.routine R v).run tracing w).2) := by
  induction x with
  | function i => exact h.judge i v w
  | infallible i =>
    have halarm : ∀ e, R'.alarm (g e) = R.alarm e := hx rfl
    simp only [routine]
    rw [Routine.run_escalate, Routine.run_escalate, h.judge, Outcome.escalate_translated f halarm]
  | assertion inner ih =>
    -- Here an error becomes a panic, which both runs must share.
    have halarm : ∀ e, R'.alarm (g e) = R.alarm e := hx rfl
    have hinner := ih fun _ => halarm
    simp only [routine]
    rw [Routine.run_escalate, Routine.run_escalate, hinner, Outcome.escalate_translated f halarm]
  | reference target ih => exact ih hx

theorem Validator.base_translated (h : R.Translates tracing f g R') (x : Validator ι) :
    x.base R' = x.base R := congrFun h.base x.handle

theorem Brander.check_translates (h : R.Translates tracing f g R') {b : Brander ι}
    (hb : b.KeepsAlarm g R R') : (b.check R tracing).Translates g (b.check R' tracing) := by
  induction b with
  | identity m =>
    intro v w
    rfl
  | validated m x =>
    intro v w
    have hrun := Validator.run_translated h (hb x rfl) v w
    simp only [check]
    rw [hrun, Validator.base_translated h, Outcome.verdict_translated, World.record_translated]
  | custom m i =>
    intro v w
    simp only [check]
    rw [h.judge i v w, Outcome.verdict_translated]
  | reference target ih => exact ih hb

/-- What decides about values keeps its alarm. -/
def Decider.KeepsAlarm (g : ε → ε') (R : Roster ι σ ε π ρ β) (R' : Roster ι σ ε' π ρ' β) :
    Decider ι → Prop
  | .brander b => b.KeepsAlarm g R R'
  | .validator x => x.KeepsAlarm g R R'

theorem Decider.check_translates (h : R.Translates tracing f g R') {d : Decider ι}
    (hd : d.KeepsAlarm g R R') : (d.check R tracing).Translates g (d.check R' tracing) := by
  cases d with
  | brander b => exact Brander.check_translates h hd
  | validator x =>
    intro v w
    have hrun := Validator.run_translated h hd v w
    simp only [check, Validator.run]
    rw [hrun, Outcome.verdict_translated]

/-! ## Copies -/

theorem Validator.duplicate_translated (h : R.Translates tracing f g R') (x : Validator ι) (s : σ) :
    x.duplicate R' s = x.duplicate R s := by
  induction x with
  | function i | infallible i =>
    unfold Validator.duplicate
    rw [h.duplicate]
  | assertion inner ih =>
    unfold Validator.duplicate
    rw [ih]
  | reference target => rfl

theorem Brander.duplicate_translated (h : R.Translates tracing f g R') (b : Brander ι) (s : σ) :
    b.duplicate R' s = b.duplicate R s := by
  cases b with
  | identity m => rfl
  | validated m x =>
    simp only [Brander.duplicate]
    rw [Validator.duplicate_translated h]
  | custom m i =>
    change (Brander.custom m (R'.duplicate i s).1, (R'.duplicate i s).2) = _
    rw [h.duplicate]
    rfl
  | reference target => rfl

end

theorem Validator.neverRejects_duplicate (R : Roster ι σ ε π ρ β) (x : Validator ι) (s : σ) :
    (x.duplicate R s).1.neverRejects = x.neverRejects := by cases x <;> rfl

section
variable {tracing : Bool} {f : ρ → ρ'} {g : ε → ε'} {R : Roster ι σ ε π ρ β}
  {R' : Roster ι σ ε' π ρ' β}

theorem Validator.KeepsAlarm.duplicate {x : Validator ι} (hx : x.KeepsAlarm g R R') (s : σ) :
    (x.duplicate R s).1.KeepsAlarm g R R' := by
  unfold KeepsAlarm
  rw [neverRejects_duplicate]
  exact hx

theorem Brander.KeepsAlarm.duplicate {b : Brander ι} (hb : b.KeepsAlarm g R R') (s : σ) :
    (b.duplicate R s).1.KeepsAlarm g R R' := by
  cases b with
  | identity m => exact hb
  | validated m x =>
    intro y hy
    have hxy : (x.duplicate R s).1 = y := Option.some.inj hy
    have hx : x.KeepsAlarm g R R' := hb x rfl
    rw [← hxy]
    exact hx.duplicate s
  | custom m i =>
    intro y hy
    exact absurd hy (by simp [Brander.duplicate, Brander.stored?])
  | reference target => exact hb

/-- A function hands its errors over, so there is no alarm to keep. -/
theorem Brander.keepsAlarm_of_function (m : Mark) (i : ι) :
    (Brander.validated m (.function i)).KeepsAlarm g R R' := by
  intro x hx hasserts
  rw [← Option.some.inj hx] at hasserts
  contradiction

theorem Brander.KeepsAlarm.of_find? {pool : Pool ι} {on : Target} {b : Brander ι}
    (hpool : ∀ b ∈ pool, b.KeepsAlarm g R R') (hb : pool.find? on = some b) :
    b.KeepsAlarm g R R' := Pool.forall_of_find? (fun _ h => h) hpool hb

/-! ## Requests -/

/-- The same errand, whose answer tells another error. -/
structure Errand.Translates (g : ε → ε') (e : Errand ι σ ε π β) (e' : Errand ι σ ε' π β) :
    Prop where
  decider : e'.decider = e.decider
  values : e'.values = e.values
  state : e'.state = e.state
  reply : ∀ o, e'.reply (o.mapError g) = (e.reply o).mapError g

namespace Pool

/-- Both rosters are asked for the same checks, or for none. -/
theorem errand?_translated (h : R.Translates tracing f g R') (pool : Pool ι) (s : σ)
    (op : Operation ι β) :
    Option.Rel (Errand.Translates g) (errand? R pool s op) (errand? R' pool s op) := by
  cases op with
  | add _ | copy _ | refer _ | stored _ | takeStored _ | moveStored _ | describe _ => exact .none
  | check on v =>
    rcases hb : pool.find? on with _ | b
    · simp only [errand?, hb]
      exact .none
    · simp only [errand?, hb]
      exact .some ⟨rfl, rfl, rfl, fun o => rfl⟩
  | brand on v | brandInPlace on v | brandEach on vs =>
    rcases hb : pool.find? on with _ | b
    · simp only [errand?, hb]
      exact .none
    · simp only [errand?, hb]
      exact .some ⟨rfl, rfl, rfl, fun o => by simp only [Outcome.map_mapError]; rfl⟩
  | call on v =>
    rcases hb : (pool.find? on).filter Brander.isInfallible with _ | b
    · simp only [errand?, hb]
      exact .none
    · simp only [errand?, hb]
      exact .some ⟨rfl, rfl, rfl, fun o => by simp only [Outcome.map_mapError]; rfl⟩
  | callInPlace on v | callEach on vs =>
    rcases hb : (pool.find? on).filter Brander.isIdentity with _ | b
    · simp only [errand?, hb]
      exact .none
    · simp only [errand?, hb]
      exact .some ⟨rfl, rfl, rfl, fun o => by simp only [Outcome.map_mapError]; rfl⟩
  | judge on v | judgeTaken on v =>
    rcases hx : (pool.find? on).bind Brander.stored? with _ | x
    · simp only [errand?, hx]
      exact .none
    · simp only [errand?, hx]
      have hcopy := Validator.duplicate_translated h x s
      exact .some ⟨by simp only [hcopy], rfl, by simp only [hcopy], fun o => rfl⟩

theorem errand?_both (h : R.Translates tracing f g R') (pool : Pool ι) (s : σ)
    (op : Operation ι β) :
    (errand? R pool s op = none ∧ errand? R' pool s op = none) ∨
      ∃ e e', errand? R pool s op = some e ∧ errand? R' pool s op = some e' ∧
        e.Translates g e' := by
  have hboth := errand?_translated h pool s op
  generalize errand? R pool s op = first at hboth ⊢
  generalize errand? R' pool s op = second at hboth ⊢
  cases hboth with
  | none => exact Or.inl ⟨rfl, rfl⟩
  | some he => exact Or.inr ⟨_, _, rfl, rfl, he⟩

theorem settle_translated (h : R.Translates tracing f g R') (pool : Pool ι) (s : σ)
    (op : Operation ι β) :
    settle R' pool s op = ((settle R pool s op).1.mapError g, (settle R pool s op).2) := by
  cases op with
  | copy on =>
    rcases hb : pool.find? on with _ | b
    · simp only [settle, hb]
      rfl
    · simp only [settle, hb, Brander.duplicate_translated h]
      rfl
  | takeStored on =>
    rcases hx : (pool.find? on).bind Brander.stored? with _ | x
    · simp only [settle, hx]
      rfl
    · simp only [settle, hx, Validator.duplicate_translated h]
      rfl
  | moveStored index =>
    rcases hx : pool[index]?.bind Brander.owned? with _ | x <;> simp only [settle, hx] <;> rfl
  | refer on => rcases hb : pool.find? on with _ | b <;> simp only [settle, hb] <;> rfl
  | stored on =>
    rcases hx : (pool.find? on).bind Brander.stored? with _ | x <;> simp only [settle, hx] <;> rfl
  | describe on =>
    rcases hd : (pool.find? on).bind Brander.describe? with _ | shown <;>
      simp only [settle, hd] <;> rfl
  | _ => rfl

/-- Whoever decides about a request keeps the alarm that all branders of the pool keep. -/
theorem keepsAlarm_of_errand {pool : Pool ι} {s : σ} {op : Operation ι β} {e : Errand ι σ ε π β}
    (hpool : ∀ b ∈ pool, b.KeepsAlarm g R R') (he : errand? R pool s op = some e) :
    e.decider.KeepsAlarm g R R' := by
  cases op with
  | add _ | copy _ | refer _ | stored _ | takeStored _ | moveStored _ | describe _ =>
    simp [errand?] at he
  | check on v | brand on v | brandInPlace on v | brandEach on v =>
    obtain ⟨b, hb, rfl⟩ := Option.map_eq_some_iff.mp he
    exact Brander.KeepsAlarm.of_find? hpool hb
  | call on v | callInPlace on v | callEach on v =>
    obtain ⟨b, hb, rfl⟩ := Option.map_eq_some_iff.mp he
    exact Brander.KeepsAlarm.of_find? hpool (Option.filter_eq_some_iff.mp hb).1
  | judge on v =>
    obtain ⟨x, hx, rfl⟩ := Option.map_eq_some_iff.mp he
    obtain ⟨b, hb, hstored⟩ := Option.bind_eq_some_iff.mp hx
    exact Brander.KeepsAlarm.of_find? hpool hb x hstored
  | judgeTaken on v =>
    obtain ⟨x, hx, rfl⟩ := Option.map_eq_some_iff.mp he
    obtain ⟨b, hb, hstored⟩ := Option.bind_eq_some_iff.mp hx
    exact (Brander.KeepsAlarm.of_find? hpool hb x hstored).duplicate s

/-- One request gets one answer, up to its error, and leaves one pool and one world. -/
theorem step_translated (h : R.Translates tracing f g R') {pool : Pool ι}
    (hpool : ∀ b ∈ pool, b.KeepsAlarm g R R') (w : World σ) (op : Operation ι β) :
    step R' tracing pool w op =
      ((step R tracing pool w op).1.mapError g, (step R tracing pool w op).2) := by
  rcases errand?_both h pool w.state op with ⟨he, he'⟩ | ⟨e, e', he, he', hee⟩
  · rw [step_of_no_errand tracing he, step_of_no_errand tracing he', settle_translated h]
  · have hcheck := Decider.check_translates h (keepsAlarm_of_errand hpool he)
    rw [step_of_errand tracing he, step_of_errand tracing he', hee.decider, hee.values,
      hee.state, hcheck.each, hee.reply]

/-- One request makes the same calls. -/
theorem seenBy_translated [DecidableEq κ] (label : ι → κ) (k : κ)
    (h : R.Translates tracing f g R') {pool : Pool ι} (hpool : ∀ b ∈ pool, b.KeepsAlarm g R R')
    (w : World σ) (op : Operation ι β) :
    seenBy R' label tracing k pool w op = seenBy R label tracing k pool w op := by
  unfold seenBy
  rcases errand?_both h pool w.state op with ⟨he, he'⟩ | ⟨e, e', he, he', hee⟩
  · rw [he, he']
  · have hcheck := Decider.check_translates h (keepsAlarm_of_errand hpool he)
    simp only [he, he', hee.decider, hee.values, hee.state, hcheck.checked]

/-- A request makes no brander whose alarm is not kept, unless it adds one. -/
theorem step_keepsAlarm (tracing : Bool) {pool : Pool ι}
    (hpool : ∀ b ∈ pool, b.KeepsAlarm g R R') (w : World σ)
    {op : Operation ι β} (hop : ∀ b, op = .add b → b.KeepsAlarm g R R') :
    ∀ b ∈ (step R tracing pool w op).2.1, b.KeepsAlarm g R R' :=
  forall_step (fun _ s hb => hb.duplicate s) (fun _ h => h) hpool tracing w hop

end Pool

end

/-! ## Callers -/

/-- A caller who asks requests and may choose each one by the answers so far and by the outside
world. Of an error that an answer tells, the caller learns only that there is one. -/
inductive Caller (ι σ π β : Type) where
  | content
  | asks (op : Operation ι β) (next : Answer ι Unit π β → World σ → Caller ι σ π β)

/-- The requests that a caller asks of a pool. -/
def Caller.requests (R : Roster ι σ ε π ρ β) (tracing : Bool) (pool : Pool ι) (w : World σ) :
    Caller ι σ π β → List (Operation ι β)
  | .content => []
  | .asks op next =>
    let (answer, pool, w) := Pool.step R tracing pool w op
    op :: (next (answer.mapError fun _ => ()) w).requests R tracing pool w

theorem Answer.erased_mapError (g : ε → ε') (a : Answer ι ε π β) :
    (a.mapError g).mapError (fun _ => ()) = a.mapError fun _ => () := by
  cases a with
  | checked o | branded m o | brandedEach m o => cases o <;> rfl
  | unsupported | pool n | stored x | text s => rfl

section
variable {tracing : Bool} {f : ρ → ρ'} {g : ε → ε'} {R : Roster ι σ ε π ρ β}
  {R' : Roster ι σ ε' π ρ' β}

theorem Caller.requests_translated (h : R.Translates tracing f g R') {pool : Pool ι}
    (hpool : ∀ b ∈ pool, b.KeepsAlarm g R R') (w : World σ) {caller : Caller ι σ π β}
    (hadd : ∀ b, .add b ∈ caller.requests R tracing pool w → b.KeepsAlarm g R R') :
    caller.requests R' tracing pool w = caller.requests R tracing pool w := by
  induction caller generalizing pool w with
  | content => rfl
  | asks op next ih =>
    have hstep := Pool.step_translated h hpool w op
    obtain ⟨hop, hlater⟩ := Pool.forall_added_cons.mp hadd
    have hnext := Pool.step_keepsAlarm tracing hpool w hop
    have hrest := ih _ _ hnext _ hlater
    -- Both answers look the same to the caller, so the same request comes next.
    simp only [requests]
    rw [hstep, Answer.erased_mapError]
    exact congrArg (op :: ·) hrest

namespace Pool

theorem run_translated (h : R.Translates tracing f g R') {pool : Pool ι}
    (hpool : ∀ b ∈ pool, b.KeepsAlarm g R R') (w : World σ) {ops : List (Operation ι β)}
    (hadd : ∀ b, .add b ∈ ops → b.KeepsAlarm g R R') :
    run R' tracing pool w ops =
      ((run R tracing pool w ops).1.map (Answer.mapError g), (run R tracing pool w ops).2) := by
  induction ops generalizing pool w with
  | nil => rfl
  | cons op ops ih =>
    obtain ⟨hop, hlater⟩ := forall_added_cons.mp hadd
    have hnext := step_keepsAlarm tracing hpool w hop
    have hrest := ih hnext (step R tracing pool w op).2.2 hlater
    simp only [run]
    rw [step_translated h hpool w op]
    simp only [hrest, List.map_cons]

theorem seen_translated [DecidableEq κ] (label : ι → κ) (k : κ) (h : R.Translates tracing f g R')
    {pool : Pool ι} (hpool : ∀ b ∈ pool, b.KeepsAlarm g R R') (w : World σ)
    {ops : List (Operation ι β)} (hadd : ∀ b, .add b ∈ ops → b.KeepsAlarm g R R') :
    seen R' label tracing k pool w ops = seen R label tracing k pool w ops := by
  induction ops generalizing pool w with
  | nil => rfl
  | cons op ops ih =>
    obtain ⟨hop, hlater⟩ := forall_added_cons.mp hadd
    have hnext := step_keepsAlarm tracing hpool w hop
    have hrest := ih hnext (step R tracing pool w op).2.2 hlater
    simp only [seen]
    rw [step_translated h hpool w op, seenBy_translated label k h hpool, hrest]

/-- The brands that the answers of a run hand over are the values of their requests. -/
theorem brands?_run (R : Roster ι σ ε π ρ β) (tracing : Bool) (pool : Pool ι) (w : World σ)
    (ops : List (Operation ι β)) :
    List.Forall₂ (fun op a => ∀ mark bases, a.brands? = some (mark, bases) → bases = op.values)
      ops (run R tracing pool w ops).1 := by
  induction ops generalizing pool w with
  | nil => exact .nil
  | cons op ops ih => exact .cons (fun mark bases h => (brands?_step h).1) (ih _ _)

end Pool

/-! ## The law -/

/-- Whatever payloads and errors validators hand over, a caller asks the same requests and gets
the same answers, each error under `g`. The pool, the outside world and its events come out the
same, and so do the calls of every validator. What is branded is always the value of the
request. -/
theorem payloads_and_errors_steer_nothing [DecidableEq κ] (h : R.Translates tracing f g R')
    {pool : Pool ι} (hpool : ∀ b ∈ pool, b.KeepsAlarm g R R') (w : World σ)
    (caller : Caller ι σ π β)
    (hadd : ∀ b, .add b ∈ caller.requests R tracing pool w → b.KeepsAlarm g R R')
    (label : ι → κ) (record : List (Call κ β)) :
    let ops := caller.requests R tracing pool w
    let run := Pool.run R tracing pool w ops
    caller.requests R' tracing pool w = ops ∧
      Pool.run R' tracing pool w ops = (run.1.map (Answer.mapError g), run.2) ∧
      (∀ k, callsTo k
          (Pool.run (R'.recorded label) tracing pool (w.beside record) ops).2.2.state.2 =
        callsTo k
          (Pool.run (R.recorded label) tracing pool (w.beside record) ops).2.2.state.2) ∧
      List.Forall₂ (fun op a => ∀ mark bases, a.brands? = some (mark, bases) → bases = op.values)
        ops run.1 := by
  intro ops run
  refine ⟨Caller.requests_translated h hpool w hadd, Pool.run_translated h hpool w hadd,
    fun k => ?calls, Pool.brands?_run R tracing pool w ops⟩
  case calls =>
    obtain ⟨entries, hentries, hrun⟩ := Pool.run_recorded R label tracing pool w record ops
    obtain ⟨entries', hentries', hrun'⟩ := Pool.run_recorded R' label tracing pool w record ops
    have hseen := Pool.seen_translated label k h hpool w hadd
    rw [hrun, hrun', World.state_beside, World.state_beside, callsTo_append, callsTo_append,
      hentries, hentries', hseen]

end

/-! ## Validators that only differ in what they say -/

/-- Functions that accept even numbers, count their calls, and hand over a payload or an error. -/
def evens (payload : Nat → ρ) (error : Nat → ε) (alarm : ε → π) : Roster Unit Nat ε π ρ Nat where
  base _ := .named "u32"
  judge _ v := .read fun n => .write (n + 1)
    (.finish (if v % 2 = 0 then .accepted (payload v) else .rejected (error v)))
  alarm := alarm
  duplicate i s := (i, s)

theorem evens_translates (tracing : Bool) (f : ρ → ρ') (g : ε → ε') (payload : Nat → ρ)
    (error : Nat → ε) (alarm : ε → π) (alarm' : ε' → π) :
    (evens payload error alarm).Translates tracing f g
      (evens (f ∘ payload) (g ∘ error) alarm') where
  base := rfl
  duplicate := rfl
  judge i v w := by
    simp only [evens, Routine.run]
    by_cases hv : v % 2 = 0
    · rw [if_pos hv, if_pos hv]
      rfl
    · rw [if_neg hv, if_neg hv]
      rfl

/-- The first hands over another number than the value, and errors with the value. -/
def wordy : Roster Unit Nat Nat Nat Nat Nat := evens (· + 100) id id

/-- The second hands over nothing, and errors with whether the value is small. -/
def terse : Roster Unit Nat Bool Nat Unit Nat := evens (fun _ => ()) (decide <| · < 10) Bool.toNat

/-- The brander that is asked for. -/
def evenBrander : Brander Unit := .validated ⟨.named "Even", .named "F"⟩ (.function ())

/-- Adds a brander, brands through it, and brands a list only after an error came. -/
def inquirer : Caller Unit Nat Nat Nat :=
  .asks (.add evenBrander) fun _ _ =>
    .asks (.brand ⟨0, 0⟩ 4) fun _ _ => .asks (.check ⟨0, 1⟩ 3) fun answer _ =>
      match answer with
      | .checked (.rejected ()) => .asks (.brandEach ⟨0, 0⟩ [2, 3, 4]) fun _ _ => .content
      | _ => .content

theorem the_inquirer_hears_the_other_error :
    wordy.Translates true (fun _ => ()) (decide <| · < 10) terse ∧
      (Pool.run terse true [] ⟨0, []⟩ (inquirer.requests wordy true [] ⟨0, []⟩)).1 =
        [.pool 1, .branded evenBrander.mark (.accepted ⟨4⟩), .checked (.rejected true),
          .brandedEach evenBrander.mark (.rejected true)] := by
  have htranslates : wordy.Translates true (fun _ => ()) (decide <| · < 10) terse :=
    evens_translates true _ _ _ _ _ _
  have hops : inquirer.requests wordy true [] ⟨0, []⟩ =
      [.add evenBrander, .brand ⟨0, 0⟩ 4, .check ⟨0, 1⟩ 3, .brandEach ⟨0, 0⟩ [2, 3, 4]] := rfl
  have hadd : ∀ b, .add b ∈ inquirer.requests wordy true [] ⟨0, []⟩ →
      b.KeepsAlarm (decide <| · < 10) wordy terse := by
    intro b hb
    rw [hops] at hb
    simp only [List.mem_cons, Operation.add.injEq, reduceCtorEq, List.not_mem_nil, or_false] at hb
    rw [hb]
    exact Brander.keepsAlarm_of_function _ _
  have hlaw := payloads_and_errors_steer_nothing htranslates
    (fun b hb => absurd hb List.not_mem_nil) ⟨0, []⟩ inquirer hadd id []
  exact ⟨htranslates, (congrArg Prod.fst hlaw.2.1).trans rfl⟩

end NominalBrand
