-- The laws of what goes alike. Two routines go alike when from every state they
-- take the same course: they end with the same verdict, leave the same state and
-- make the same checks. Rosters, validators and branders go alike when their
-- routines do, and then no check, no branding and no record tells them apart.
import NominalBrand.Proofs.EventLog
import Mathlib.Data.List.Forall2

namespace NominalBrand

variable {ι σ ε π ρ ρ' α β κ : Type}

/-! ## Related options -/

section
variable {α α' α'' γ γ' : Type} {r : α → α' → Prop} {t : γ → γ' → Prop} {a : Option α}
  {a' : Option α'}

theorem rel_refl {r : α → α → Prop} (hr : ∀ x, r x x) (a : Option α) : Option.Rel r a a := by
  cases a with
  | none => exact .none
  | some x => exact .some (hr x)

theorem rel_symm {r : α → α → Prop} (hr : ∀ {x y}, r x y → r y x) {a b : Option α}
    (h : Option.Rel r a b) : Option.Rel r b a := by
  cases h with
  | none => exact .none
  | some h => exact .some (hr h)

theorem rel_trans {r : α → α → Prop} (hr : ∀ {x y z}, r x y → r y z → r x z) {a b c : Option α}
    (h : Option.Rel r a b) (h' : Option.Rel r b c) : Option.Rel r a c := by
  cases h with
  | none => exact h'
  | some h =>
    cases h' with
    | some h' => exact .some (hr h h')

theorem rel_map (h : Option.Rel r a a') {f : α → γ} {f' : α' → γ'}
    (hf : ∀ {x x'}, r x x' → t (f x) (f' x')) : Option.Rel t (a.map f) (a'.map f') := by
  cases h with
  | none => exact .none
  | some h => exact .some (hf h)

theorem rel_bind (h : Option.Rel r a a') {f : α → Option γ} {f' : α' → Option γ'}
    (hf : ∀ {x x'}, r x x' → Option.Rel t (f x) (f' x')) :
    Option.Rel t (a.bind f) (a'.bind f') := by
  cases h with
  | none => exact .none
  | some h => exact hf h

theorem rel_filter (h : Option.Rel r a a') {p : α → Bool} {p' : α' → Bool}
    (hp : ∀ {x x'}, r x x' → p' x' = p x) : Option.Rel r (a.filter p) (a'.filter p') := by
  cases h with
  | none => exact .none
  | some h =>
    simp only [Option.filter, hp h]
    split
    · exact .some h
    · exact .none

theorem rel_getElem? {l : List α} {l' : List α'} (h : List.Forall₂ r l l') (i : Nat) :
    Option.Rel r l[i]? l'[i]? := by
  induction h generalizing i with
  | nil => exact .none
  | cons h _ ih =>
    cases i with
    | zero => exact .some h
    | succ i => exact ih i

end

/-! ## Routines that go alike -/

/-- Two routines go the same way from every state. What an accepting one hands over goes unread,
so it may differ. -/
def Routine.Alike (r : Routine σ ε π ρ) (r' : Routine σ ε π ρ') : Prop :=
  ∀ s, (r'.course s).verdict = (r.course s).verdict

theorem Outcome.verdict_escalate (payload : ε → π) (o : Outcome ε π α) :
    (o.escalate payload).verdict = o.verdict.escalate payload := by cases o <;> rfl

/-- The checks of a stretch in the order in which they began, as a record has them. -/
def CallTree.begun (κ β : Type) : CallTree ε π → List (Call κ β)
  | .nothing => []
  | .check brand inner _ later => .consulted brand :: inner.begun κ β ++ later.begun κ β

namespace Routine

theorem course_escalate (payload : ε → π) (r : Routine σ ε π ρ) (s : σ) :
    (r.escalate payload).course s =
      ⟨(r.course s).outcome.escalate payload, (r.course s).state, (r.course s).calls⟩ := by
  induction r generalizing s with
  | finish o => rfl
  | read k ih => exact ih s s
  | write t k ih => exact ih t
  | consult brand body k _ ih =>
    simp only [escalate, course]
    rw [ih]

theorem course_noting (entry : α) (r : Routine (σ × List α) ε π ρ) (s : σ) (record : List α) :
    (noting entry r).course (s, record) = r.course (s, record ++ [entry]) := rfl

/-- A routine goes the same way beside a record, which grows by the checks that it lets run. -/
theorem course_recorded (r : Routine σ ε π ρ) (s : σ) (record : List (Call κ β)) :
    (r.recorded κ β).course (s, record) =
      ⟨(r.course s).outcome, ((r.course s).state, record ++ (r.course s).calls.begun κ β),
        (r.course s).calls⟩ := by
  induction r generalizing s record with
  | finish o => simp only [recorded, course, CallTree.begun, List.append_nil]
  | read k ih => exact ih s s record
  | write t k ih => exact ih t record
  | consult brand body k hbody hk =>
    simp only [recorded, course, course_noting]
    rw [hbody, hk]
    simp only [CallTree.begun, List.append_assoc, List.cons_append, List.nil_append]

theorem course_andThen (r : Routine σ ε π ρ) (k : Outcome ε π ρ → Routine σ ε π ρ) (s : σ) :
    (r.andThen k).course s =
      let rest := (k (r.course s).outcome).course (r.course s).state
      ⟨rest.outcome, rest.state, (r.course s).calls.append rest.calls⟩ := by
  induction r generalizing s with
  | finish o => rfl
  | read r ih => exact ih s s
  | write t r ih => exact ih t
  | consult brand body r _ ih =>
    simp only [andThen, course]
    rw [ih]
    rfl

namespace Alike

theorem refl (r : Routine σ ε π ρ) : r.Alike r := fun _ => rfl

variable {r : Routine σ ε π ρ} {r' : Routine σ ε π ρ'}

theorem symm (h : r.Alike r') : r'.Alike r := fun s => (h s).symm

theorem trans {r'' : Routine σ ε π ρ} (h : r.Alike r') (h' : r'.Alike r'') : r.Alike r'' :=
  fun s => (h' s).trans (h s)

theorem escalate (h : r.Alike r') (payload : ε → π) :
    (r.escalate payload).Alike (r'.escalate payload) := by
  intro s
  obtain ⟨houtcome, hstate, hcalls⟩ := Course.mk.inj (h s)
  simp only [course_escalate, Course.verdict, Outcome.verdict_escalate, houtcome, hstate, hcalls]

theorem recorded (h : r.Alike r') : (r.recorded κ β).Alike (r'.recorded κ β) := by
  rintro ⟨s, record⟩
  obtain ⟨houtcome, hstate, hcalls⟩ := Course.mk.inj (h s)
  simp only [course_recorded, Course.verdict, houtcome, hstate, hcalls]

end Alike

end Routine

/-! ## Rosters that go alike -/

/-- Two rosters for the same handles, with validators that go the same way. -/
structure Roster.Alike (R R' : Roster ι σ ε π ρ β) : Prop where
  base : R'.base = R.base
  judge : ∀ h v, (R.judge h v).Alike (R'.judge h v)
  alarm : R'.alarm = R.alarm
  duplicate : R'.duplicate = R.duplicate

theorem Roster.Alike.refl (R : Roster ι σ ε π ρ β) : R.Alike R :=
  ⟨rfl, fun _ _ => .refl _, rfl, rfl⟩

theorem Roster.Alike.recorded {R R' : Roster ι σ ε π ρ β} (h : R.Alike R') (label : ι → κ) :
    (R.recorded label).Alike (R'.recorded label) where
  base := h.base
  judge i v := by
    rintro ⟨s, record⟩
    simp only [Roster.recorded, Routine.course_noting]
    exact (h.judge i v).recorded (s, record ++ [.stored (label i) v])
  alarm := h.alarm
  duplicate := by
    funext i s
    simp only [Roster.recorded, h.duplicate]

section
variable {R R' : Roster ι σ ε π ρ β} (hR : R.Alike R')
include hR

theorem Validator.routine_of_alike (x : Validator ι) (v : β) :
    (x.routine R v).Alike (x.routine R' v) := by
  induction x with
  | function h => exact hR.judge h v
  | infallible h =>
    simp only [routine, hR.alarm]
    exact (hR.judge h v).escalate R.alarm
  | assertion inner ih =>
    simp only [routine, hR.alarm]
    exact ih.escalate R.alarm
  | reference target ih => exact ih

theorem Validator.base_of_alike (x : Validator ι) : x.base R' = x.base R :=
  congrFun hR.base x.handle

theorem Validator.duplicate_of_alike (x : Validator ι) (s : σ) :
    x.duplicate R' s = x.duplicate R s := by
  induction x with
  | function h | infallible h => simp only [duplicate, hR.duplicate]
  | assertion inner ih => simp only [duplicate, ih]
  | reference target => rfl

theorem Brander.duplicate_of_alike (b : Brander ι) (s : σ) :
    b.duplicate R' s = b.duplicate R s := by
  cases b with
  | identity m => rfl
  | validated m x => simp only [duplicate, x.duplicate_of_alike hR]
  | custom m h => simp only [duplicate, hR.duplicate]
  | reference target => rfl

theorem Brander.course_of_alike (b : Brander ι) : b.course R' = b.course R := by
  induction b with
  | identity m => rfl
  | validated m x =>
    funext v s
    obtain ⟨houtcome, hstate, hcalls⟩ := Course.mk.inj (x.routine_of_alike hR v s)
    simp only [course, x.base_of_alike hR, houtcome, hstate, hcalls]
  | custom m h => exact funext fun v => funext fun s => hR.judge h v s
  | reference target ih => exact ih

theorem Brander.check_of_alike (tracing : Bool) (b : Brander ι) :
    b.check R' tracing = b.check R tracing := by
  funext v w
  rw [check_eq, check_eq, b.course_of_alike hR]

theorem Decider.check_of_alike (tracing : Bool) (d : Decider ι) :
    d.check R' tracing = d.check R tracing := by
  cases d with
  | brander b => exact b.check_of_alike hR tracing
  | validator x =>
    funext v w
    rw [check_eq, check_eq]
    exact congrArg (Course.logged · tracing w.events) (x.routine_of_alike hR v w.state)

theorem Pool.step_of_alike (tracing : Bool) (pool : Pool ι) (w : World σ) (op : Operation ι β) :
    step R' tracing pool w op = step R tracing pool w op := by
  have herrand : errand? R' pool w.state op = errand? R pool w.state op := by
    cases op with
    | judgeTaken on v => simp only [errand?, Validator.duplicate_of_alike hR]
    | _ => rfl
  have hsettle : (settle R' pool w.state op : Answer ι ε π β × Pool ι × σ) =
      settle R pool w.state op := by
    cases op with
    | copy on => simp only [settle, Brander.duplicate_of_alike hR]
    | takeStored on => simp only [settle, Validator.duplicate_of_alike hR]
    | _ => rfl
  rcases he : errand? R pool w.state op with _ | e
  · rw [step_of_no_errand tracing he, step_of_no_errand tracing (herrand.trans he), hsettle]
  · rw [step_of_errand tracing he, step_of_errand tracing (herrand.trans he),
      e.decider.check_of_alike hR]

/-- A run does the same with validators that go the same way. -/
theorem Pool.run_of_alike (tracing : Bool) (pool : Pool ι) (w : World σ)
    (ops : List (Operation ι β)) : run R' tracing pool w ops = run R tracing pool w ops := by
  induction ops generalizing pool w with
  | nil => rfl
  | cons op ops ih => simp only [run, step_of_alike hR, ih]

end

/-! ## Branders that go alike -/

/-- Two validators that no brander tells apart. -/
structure Validator.Alike (R : Roster ι σ ε π ρ β) (x x' : Validator ι) : Prop where
  base : x'.base R = x.base R
  routine : ∀ v, (x.routine R v).Alike (x'.routine R v)
  neverRejects : x'.neverRejects = x.neverRejects

/-- Two branders that no request tells apart, except one that copies them. -/
structure Brander.Alike (R : Roster ι σ ε π ρ β) (b b' : Brander ι) : Prop where
  mark : b'.mark = b.mark
  course : b'.course R = b.course R
  isIdentity : b'.isIdentity = b.isIdentity
  describe? : b'.describe? = b.describe?
  stored? : Option.Rel (Validator.Alike R) b.stored? b'.stored?

section
variable {R R' : Roster ι σ ε π ρ β}

namespace Validator

theorem Alike.refl (x : Validator ι) : x.Alike R x := ⟨rfl, fun _ => .refl _, rfl⟩

theorem Alike.trans {x x' x'' : Validator ι} (h : x.Alike R x') (h' : x'.Alike R x'') :
    x.Alike R x'' where
  base := h'.base.trans h.base
  routine v := (h.routine v).trans (h'.routine v)
  neverRejects := h'.neverRejects.trans h.neverRejects

theorem Alike.symm {x x' : Validator ι} (h : x.Alike R x') : x'.Alike R x :=
  ⟨h.base.symm, fun v => (h.routine v).symm, h.neverRejects.symm⟩

theorem Alike.reference {x x' : Validator ι} (h : x.Alike R x') : x.Alike R (.reference x') :=
  ⟨h.base, h.routine, h.neverRejects⟩

end Validator

namespace Brander

namespace Alike

theorem refl (b : Brander ι) : b.Alike R b where
  mark := rfl
  course := rfl
  isIdentity := rfl
  describe? := rfl
  stored? := rel_refl (fun _ => .refl _) _

theorem trans {b b' b'' : Brander ι} (h : b.Alike R b') (h' : b'.Alike R b'') : b.Alike R b'' where
  mark := h'.mark.trans h.mark
  course := h'.course.trans h.course
  isIdentity := h'.isIdentity.trans h.isIdentity
  describe? := h'.describe?.trans h.describe?
  stored? := rel_trans (fun hx hx' => hx.trans hx') h.stored? h'.stored?

theorem symm {b b' : Brander ι} (h : b.Alike R b') : b'.Alike R b where
  mark := h.mark.symm
  course := h.course.symm
  isIdentity := h.isIdentity.symm
  describe? := h.describe?.symm
  stored? := rel_symm (fun hx => hx.symm) h.stored?

/-- A reference passes every request on. -/
theorem borrowed (b : Brander ι) : b.Alike R (.reference b) :=
  ⟨rfl, rfl, rfl, rfl, (refl b).stored?⟩

theorem reference {b b' : Brander ι} (h : b.Alike R b') :
    (Brander.reference b).Alike R (.reference b') :=
  (borrowed b).symm.trans (h.trans (borrowed b'))

theorem validated (m : Mark) {x x' : Validator ι} (h : x.Alike R x') :
    (Brander.validated m x).Alike R (.validated m x') where
  mark := rfl
  course := by
    funext v s
    obtain ⟨houtcome, hstate, hcalls⟩ := Course.mk.inj (h.routine v s)
    simp only [Brander.course, h.base, houtcome, hstate, hcalls]
  isIdentity := rfl
  describe? := rfl
  stored? := .some h

end Alike

/-- A brander that stores a validator is that validator under its mark, behind references. -/
theorem alike_of_stored? {b : Brander ι} {x : Validator ι} (hx : b.stored? = some x) :
    b.Alike R (.validated b.mark x) := by
  induction b with
  | identity m => simp [stored?] at hx
  | validated m y =>
    obtain rfl : y = x := Option.some.inj hx
    exact .refl _
  | custom m h => simp [stored?] at hx
  | reference target ih => exact (Alike.borrowed target).symm.trans (ih hx)

theorem Alike.isInfallible {b b' : Brander ι} (h : b.Alike R b') :
    b'.isInfallible = b.isInfallible := by
  have hnever : b'.stored?.map Validator.neverRejects = b.stored?.map Validator.neverRejects := by
    have hstored := h.stored?
    generalize b.stored? = x, b'.stored? = x' at hstored ⊢
    cases hstored with
    | none => rfl
    | some h => exact congrArg some h.neverRejects
  unfold Brander.isInfallible
  rw [h.isIdentity, hnever]

end Brander

/-- Two branders that do the same with every value, in every world. -/
structure Brander.BrandsAs (R R' : Roster ι σ ε π ρ β) (tracing : Bool) (b b' : Brander ι) :
    Prop where
  mark : b'.mark = b.mark
  check : b'.check R' tracing = b.check R tracing
  -- The types of the brands have the marks in them, which are the same.
  brand : ∀ v, HEq (b'.brand R' tracing v) (b.brand R tracing v)
  brandInPlace : ∀ v, HEq (b'.brandInPlace R' tracing v) (b.brandInPlace R tracing v)
  brandEach : ∀ vs, HEq (b'.brandEach R' tracing vs) (b.brandEach R tracing vs)

theorem Brander.Alike.brandsAs {R R' : Roster ι σ ε π ρ β} {b b' : Brander ι} (h : b.Alike R b')
    (hR : R.Alike R') (tracing : Bool) : b.BrandsAs R R' tracing b' := by
  have hcheck : b'.check R' tracing = b.check R tracing := by
    funext v w
    rw [check_eq, check_eq, b'.course_of_alike hR, h.course]
  refine ⟨h.mark, hcheck, fun v => ?_, fun v => ?_, fun vs => ?_⟩
  · unfold Brander.brand
    rw [hcheck]
    exact congr_arg_heq (fun m => (b.check R tracing).brand m v) h.mark
  · unfold Brander.brandInPlace
    rw [hcheck]
    exact congr_arg_heq (fun m => (b.check R tracing).brandInPlace m v) h.mark
  · unfold Brander.brandEach
    rw [hcheck]
    exact congr_arg_heq (fun m => (b.check R tracing).brandEach m vs) h.mark

end

/-! ## Branders inside validators -/

section
variable {R R' : Roster ι σ ε π ρ β}

theorem Brander.course_within (b : Brander ι) (v : β) (k : Outcome ε π Unit → Routine σ ε π ρ)
    (s : σ) :
    (b.within R v k).course s =
      let c := b.course R v s
      let rest := (k c.outcome).course c.state
      ⟨rest.outcome, rest.state, c.calls.append rest.calls⟩ := by
  induction b with
  | identity m => rfl
  | validated m x => rfl
  | custom m h => exact Routine.course_andThen _ _ s
  | reference target ih => exact ih

variable {b b' : Brander ι} {k k' : Outcome ε π Unit → Routine σ ε π ρ}

/-- A validator that sends a value through the one brander goes as one that sends it through the
other. -/
theorem Brander.Alike.within (h : b.Alike R b') (hR : R.Alike R')
    (hk : ∀ o, (k o).Alike (k' o)) (v : β) : (b.within R v k).Alike (b'.within R' v k') := by
  intro s
  simp only [course_within, b'.course_of_alike hR, h.course]
  obtain ⟨houtcome, hstate, hcalls⟩ :=
    Course.mk.inj (hk (b.course R v s).outcome (b.course R v s).state)
  simp only [Course.verdict, houtcome, hstate, hcalls]

theorem Brander.Alike.withinEach (h : b.Alike R b') (hR : R.Alike R')
    (hk : ∀ o, (k o).Alike (k' o)) (values : List β) :
    (b.withinEach R k values).Alike (b'.withinEach R' k' values) := by
  induction values with
  | nil => exact hk (.accepted ())
  | cons v vs ih =>
    refine h.within hR (fun o => ?_) v
    cases o with
    | accepted u => exact ih
    | rejected e => exact hk (.rejected e)
    | panicked p => exact hk (.panicked p)

end

end NominalBrand
