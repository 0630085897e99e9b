-- The laws of wrapping. Requests pass a wrapper at two places: a reference stands
-- around a brander, or around a validator inside a brander. Whatever is stacked
-- there, each check goes as it goes without, with the same calls and as many
-- events, and so a run cannot tell wrapped branders from bare ones.
import NominalBrand.Proofs.Alike

namespace NominalBrand

variable {ι σ ε π ρ β κ : Type}

/-! ## Copies of validators -/

namespace Roster

/-- What stands behind the second handle behaves as what stands behind the first. -/
def ActsAs (R : Roster ι σ ε π ρ β) (h h' : ι) : Prop := ∀ v, (R.judge h v).Alike (R.judge h' v)

/-- The copies of a handle, and the copies of those. -/
inductive CopyOf (R : Roster ι σ ε π ρ β) (h : ι) : ι → Prop where
  | self : CopyOf R h h
  | again {h' : ι} (made : CopyOf R h h') (s : σ) : CopyOf R h (R.duplicate h' s).1

/-- Every copy of a handle behaves as it does, and is made without touching the outside state. -/
def CopiesFaithfully (R : Roster ι σ ε π ρ β) (h : ι) : Prop :=
  ∀ h', R.CopyOf h h' → R.ActsAs h h' ∧ ∀ s, (R.duplicate h' s).2 = s

variable {R R' : Roster ι σ ε π ρ β} {h h' h'' : ι}

theorem CopyOf.trans (first : R.CopyOf h h') (next : R.CopyOf h' h'') : R.CopyOf h h'' := by
  induction next with
  | self => exact first
  | again _ s ih => exact .again ih s

theorem CopiesFaithfully.of_copyOf (hf : R.CopiesFaithfully h) (hc : R.CopyOf h h') :
    R.CopiesFaithfully h' := by
  intro h'' hc'
  obtain ⟨hacts, hleaves⟩ := hf h'' (hc.trans hc')
  exact ⟨fun v => ((hf h' hc).1 v).symm.trans (hacts v), hleaves⟩

/-! A copy keeps its label, so a record tells the calls of a copy as those of what it was copied
from. -/

section
variable {label : ι → κ} (hlabel : ∀ h s, label (R.duplicate h s).1 = label h)

theorem ActsAs.recorded (ha : R.ActsAs h h') (hsame : label h' = label h) :
    (R.recorded label).ActsAs h h' := by
  rintro v ⟨s, record⟩
  simp only [Roster.recorded, hsame, Routine.course_noting]
  exact (ha v).recorded (s, record ++ [.stored (label h) v])

include hlabel in
theorem CopyOf.label_eq (hc : R.CopyOf h h') : label h' = label h := by
  induction hc with
  | self => rfl
  | again _ s ih => exact (hlabel _ s).trans ih

theorem CopyOf.of_recorded (hc : (R.recorded label).CopyOf h h') : R.CopyOf h h' := by
  induction hc with
  | self => exact .self
  | again _ s ih => exact .again ih s.1

include hlabel in
theorem CopiesFaithfully.recorded (hf : R.CopiesFaithfully h) :
    (R.recorded label).CopiesFaithfully h := by
  intro h' hc
  obtain ⟨hacts, hleaves⟩ := hf h' hc.of_recorded
  exact ⟨hacts.recorded (hc.of_recorded.label_eq hlabel), fun s => Prod.ext (hleaves s.1) rfl⟩

end

end Roster

/-! ## Wrappers -/

/-- The brander in wrappers, any number of them and in any order. -/
inductive Brander.Wrapped (R : Roster ι σ ε π ρ β) (b : Brander ι) : Brander ι → Prop where
  | bare : Wrapped R b b
  /-- A reference to it. -/
  | borrowed {b' : Brander ι} (h : Wrapped R b b') : Wrapped R b (.reference b')
  /-- A copy of it, whose function behaves as the one that was copied. -/
  | copied {b' : Brander ι} (h : Wrapped R b b') (s : σ)
      (hacts : ∀ i ∈ b'.handle?, ∀ i' ∈ (b'.duplicate R s).1.handle?, R.ActsAs i i') :
      Wrapped R b (b'.duplicate R s).1
  /-- A brander made of the validator that was taken out of it. -/
  | remade {b' : Brander ι} {x : Validator ι} (h : Wrapped R b b') (hx : b'.stored? = some x) :
      Wrapped R b (.validated b'.mark x)
  /-- A brander made of a reference to its validator. -/
  | remadeByReference {b' : Brander ι} {x : Validator ι} (h : Wrapped R b b')
      (hx : b'.stored? = some x) : Wrapped R b (.validated b'.mark (.reference x))

/-- Whatever a brander calls is copied faithfully. -/
def Brander.CopiesFaithfully (R : Roster ι σ ε π ρ β) (b : Brander ι) : Prop :=
  ∀ h ∈ b.handle?, R.CopiesFaithfully h

section
variable {R : Roster ι σ ε π ρ β}

namespace Validator

/-- Copying a validator copies its function, or it copies a reference and nothing else. -/
theorem duplicate_handle (x : Validator ι) (s : σ) :
    ((x.duplicate R s).1.handle, (x.duplicate R s).2) = R.duplicate x.handle s ∨
      x.duplicate R s = (x, s) := by
  induction x with
  | function h | infallible h => exact Or.inl rfl
  | assertion inner ih =>
    rcases ih with ih | ih
    · exact Or.inl ih
    · right
      simp only [duplicate, ih]
  | reference target => exact Or.inr rfl

theorem alike_duplicate {x : Validator ι} {s : σ}
    (hacts : R.ActsAs x.handle (x.duplicate R s).1.handle) : x.Alike R (x.duplicate R s).1 := by
  have hbase := x.base_duplicate R s
  induction x with
  | function h => exact ⟨hbase, hacts, rfl⟩
  | infallible h => exact ⟨hbase, fun v => (hacts v).escalate R.alarm, rfl⟩
  | assertion inner ih =>
    exact ⟨hbase, fun v => ((ih hacts hbase).routine v).escalate R.alarm, rfl⟩
  | reference target => exact .refl _

end Validator

namespace Brander

theorem alike_duplicate {b : Brander ι} {s : σ}
    (hacts : ∀ i ∈ b.handle?, ∀ i' ∈ (b.duplicate R s).1.handle?, R.ActsAs i i') :
    b.Alike R (b.duplicate R s).1 := by
  cases b with
  | identity m => exact .refl _
  | validated m x => exact .validated m (x.alike_duplicate (hacts _ rfl _ rfl))
  | custom m h =>
    refine ⟨rfl, ?_, rfl, rfl, .none⟩
    funext v t
    exact hacts h rfl _ rfl v t
  | reference target => exact .refl _

theorem copyOf_duplicate {b : Brander ι} {s : σ} :
    ∀ i' ∈ (b.duplicate R s).1.handle?, ∃ i ∈ b.handle?, R.CopyOf i i' := by
  cases b with
  | identity m => intro i' hi'; cases hi'
  | validated m x =>
    rintro i' ⟨rfl⟩
    refine ⟨x.handle, rfl, ?_⟩
    rcases x.duplicate_handle (R := R) s with hx | hx
    · rw [show (x.duplicate R s).1.handle = (R.duplicate x.handle s).1 from congrArg Prod.fst hx]
      exact .again .self s
    · rw [hx]
      exact .self
  | custom m h =>
    rintro i' ⟨rfl⟩
    exact ⟨h, rfl, .again .self s⟩
  | reference target =>
    intro i' hi'
    exact ⟨i', hi', .self⟩

namespace Wrapped

variable {b b' : Brander ι}

/-- Wrappers change nothing that a request reads. -/
theorem alike (h : b.Wrapped R b') : b.Alike R b' := by
  induction h with
  | bare => exact .refl b
  | borrowed _ ih => exact ih.trans (.borrowed _)
  | copied _ s hacts ih => exact ih.trans (alike_duplicate hacts)
  | remade _ hx ih => exact ih.trans (alike_of_stored? hx)
  | remadeByReference _ hx ih =>
    exact (ih.trans (alike_of_stored? hx)).trans (.validated _ (Validator.Alike.refl _).reference)

/-- What a wrapped brander calls is a copy of what the bare one calls. -/
theorem copyOf (h : b.Wrapped R b') : ∀ i' ∈ b'.handle?, ∃ i ∈ b.handle?, R.CopyOf i i' := by
  induction h with
  | bare => exact fun i hi => ⟨i, hi, .self⟩
  | borrowed _ ih => exact ih
  | copied _ s _ ih =>
    intro i'' hi''
    obtain ⟨i', hi', hlast⟩ := copyOf_duplicate i'' hi''
    obtain ⟨i, hi, hfirst⟩ := ih i' hi'
    exact ⟨i, hi, hfirst.trans hlast⟩
  | remade _ hx ih => exact fun i' hi' => ih i' ((handle?_of_stored? hx).trans hi')
  | remadeByReference _ hx ih => exact fun i' hi' => ih i' ((handle?_of_stored? hx).trans hi')

theorem copiesFaithfully (h : b.Wrapped R b') (hf : b.CopiesFaithfully R) :
    b'.CopiesFaithfully R := by
  intro i' hi'
  obtain ⟨i, hi, hc⟩ := h.copyOf i' hi'
  exact (hf i hi).of_copyOf hc

theorem recorded {label : ι → κ} (hlabel : ∀ h s, label (R.duplicate h s).1 = label h)
    (h : b.Wrapped R b') : b.Wrapped (R.recorded label) b' := by
  induction h with
  | bare => exact .bare
  | borrowed _ ih => exact .borrowed ih
  | copied _ s hacts ih =>
    have hcopy := copied ih (s, []) ?_
    · rwa [duplicate_recorded] at hcopy
    · rw [duplicate_recorded]
      intro i hi i' hi'
      obtain ⟨j, hj, hc⟩ := copyOf_duplicate i' hi'
      obtain rfl : i = j := Option.some.inj (hi.symm.trans hj)
      exact (hacts i hi i' hi').recorded (hc.label_eq hlabel)
  | remade _ hx ih => exact .remade ih hx
  | remadeByReference _ hx ih => exact .remadeByReference ih hx

end Wrapped

end Brander

/-! ## Branders in the place of others -/

/-- A brander that may take the place of another in a pool. -/
structure Brander.StandsFor (R : Roster ι σ ε π ρ β) (b b' : Brander ι) : Prop where
  alike : b.Alike R b'
  copies : b.CopiesFaithfully R → b'.CopiesFaithfully R

/-- Two validators whose copies no brander tells apart. -/
def Validator.CopiedAlike (R : Roster ι σ ε π ρ β) (x x' : Validator ι) : Prop :=
  ∀ s, (x.duplicate R s).1.Alike R (x'.duplicate R s).1 ∧
    (x'.duplicate R s).2 = (x.duplicate R s).2

/-- Two branders whose copies, and copies of whose validators, no request tells apart. -/
structure Brander.CopiedAlike (R : Roster ι σ ε π ρ β) (b b' : Brander ι) : Prop where
  brander : ∀ s, (b.duplicate R s).1.StandsFor R (b'.duplicate R s).1 ∧
    (b'.duplicate R s).2 = (b.duplicate R s).2
  stored? : Option.Rel (Validator.CopiedAlike R) b.stored? b'.stored?

theorem Validator.duplicate_faithful {x : Validator ι} (hx : R.CopiesFaithfully x.handle) (s : σ) :
    x.Alike R (x.duplicate R s).1 ∧ (x.duplicate R s).2 = s := by
  rcases x.duplicate_handle (R := R) s with hcopy | hsame
  · obtain ⟨hhandle, hstate⟩ := Prod.mk.inj hcopy
    refine ⟨x.alike_duplicate ?_, hstate.trans ((hx _ .self).2 s)⟩
    rw [hhandle]
    exact (hx _ (.again .self s)).1
  · rw [hsame]
    exact ⟨.refl x, rfl⟩

namespace Brander

variable {b b' : Brander ι}

theorem duplicate_faithful (hf : b.CopiesFaithfully R) (s : σ) :
    b.Alike R (b.duplicate R s).1 ∧ (b.duplicate R s).1.CopiesFaithfully R ∧
      (b.duplicate R s).2 = s := by
  refine ⟨alike_duplicate fun i hi i' hi' => ?_, fun i' hi' => ?_, ?_⟩
  · obtain ⟨j, hj, hc⟩ := copyOf_duplicate i' hi'
    obtain rfl : i = j := Option.some.inj (hi.symm.trans hj)
    exact (hf i hi i' hc).1
  · obtain ⟨i, hi, hc⟩ := copyOf_duplicate i' hi'
    exact (hf i hi).of_copyOf hc
  · cases b with
    | identity m => rfl
    | validated m x => exact (x.duplicate_faithful (hf _ rfl) s).2
    | custom m h => exact (hf h rfl h .self).2 s
    | reference target => rfl

theorem Wrapped.standsFor (h : b.Wrapped R b') : b.StandsFor R b' := ⟨h.alike, h.copiesFaithfully⟩

theorem StandsFor.refl (b : Brander ι) : b.StandsFor R b := ⟨.refl b, id⟩

theorem StandsFor.borrowed (h : b.StandsFor R b') (m n : Nat) :
    (b.borrowed m).StandsFor R (b'.borrowed (m + n)) := by
  induction n with
  | zero =>
    induction m with
    | zero => exact h
    | succ m ih => exact ⟨ih.alike.reference, ih.copies⟩
  | succ n ih => exact ⟨ih.alike.trans (.borrowed _), ih.copies⟩

theorem CopiedAlike.refl (b : Brander ι) : b.CopiedAlike R b :=
  ⟨fun _ => ⟨.refl _, rfl⟩, rel_refl (fun _ _ => ⟨.refl _, rfl⟩) _⟩

theorem StandsFor.copiedAlike (h : b.StandsFor R b') (hf : b.CopiesFaithfully R) :
    b.CopiedAlike R b' := by
  have hf' := h.copies hf
  refine ⟨fun s => ?_, ?_⟩
  · obtain ⟨halike, _, hstate⟩ := duplicate_faithful hf s
    obtain ⟨halike', hcopies', hstate'⟩ := duplicate_faithful hf' s
    exact ⟨⟨halike.symm.trans (h.alike.trans halike'), fun _ => hcopies'⟩,
      hstate'.trans hstate.symm⟩
  · have hstored := h.alike.stored?
    rcases hx : b.stored? with _ | x <;> rcases hx' : b'.stored? with _ | x' <;>
      rw [hx, hx'] at hstored <;> cases hstored
    · exact .none
    · rename_i hxx
      refine .some fun s => ?_
      obtain ⟨halike, hstate⟩ := x.duplicate_faithful (hf _ (handle?_of_stored? hx)) s
      obtain ⟨halike', hstate'⟩ := x'.duplicate_faithful (hf' _ (handle?_of_stored? hx')) s
      exact ⟨(Validator.Alike.symm halike).trans (hxx.trans halike'), hstate'.trans hstate.symm⟩

end Brander

/-! ## Pools -/

/-- An answer without the identity of a validator that it hands out. -/
def Answer.anonymous : Answer ι ε π β → Answer Unit ε π β
  | .unsupported => .unsupported
  | .pool size => .pool size
  | .stored _ => .stored (.function ())
  | .text shown => .text shown
  | .checked o => .checked o
  | .branded mark o => .branded mark o
  | .brandedEach mark o => .brandedEach mark o

/-- The target of which a request copies the brander, or the validator that it stores. -/
def Operation.copies? : Operation ι β → Option Target
  | .copy on | .takeStored on | .judgeTaken on _ => some on
  | _ => none

/-- The place of the brander that a request uses up. -/
def Operation.moves? : Operation ι β → Option Nat
  | .moveStored index => some index
  | _ => none

/-- The same target, reached through more references. -/
def Target.behind (n : Nat) (on : Target) : Target := ⟨on.index, on.references + n⟩

/-- The same request, whose brander is reached through more references. -/
def Operation.behind (n : Nat) : Operation ι β → Operation ι β
  | .add b => .add b
  | .copy on => .copy (on.behind n)
  | .refer on => .refer (on.behind n)
  | .stored on => .stored (on.behind n)
  | .takeStored on => .takeStored (on.behind n)
  | .moveStored index => .moveStored index
  | .describe on => .describe (on.behind n)
  | .check on v => .check (on.behind n) v
  | .brand on v => .brand (on.behind n) v
  | .brandInPlace on v => .brandInPlace (on.behind n) v
  | .brandEach on vs => .brandEach (on.behind n) vs
  | .call on v => .call (on.behind n) v
  | .callInPlace on v => .callInPlace (on.behind n) v
  | .callEach on vs => .callEach (on.behind n) vs
  | .judge on v => .judge (on.behind n) v
  | .judgeTaken on v => .judgeTaken (on.behind n) v

/-- The second errand goes as the first. -/
structure Errand.Alike (R : Roster ι σ ε π ρ β) (e e' : Errand ι σ ε π β) : Prop where
  course : e'.decider.course R = e.decider.course R
  values : e'.values = e.values
  state : e'.state = e.state
  reply : e'.reply = e.reply

namespace Pool

variable {pool pool' : Pool ι}

theorem rel_find? (hpool : List.Forall₂ (Brander.StandsFor R) pool pool') (n : Nat)
    (on : Target) : Option.Rel (Brander.StandsFor R) (pool.find? on) (pool'.find? (on.behind n)) :=
  rel_map (rel_getElem? hpool on.index) fun h => h.borrowed on.references n

theorem forall₂_eraseIdx (hpool : List.Forall₂ (Brander.StandsFor R) pool pool') (i : Nat) :
    List.Forall₂ (Brander.StandsFor R) (pool.eraseIdx i) (pool'.eraseIdx i) := by
  rw [List.eraseIdx_eq_take_drop_succ, List.eraseIdx_eq_take_drop_succ]
  exact List.rel_append (List.forall₂_take i hpool) (List.forall₂_drop (i + 1) hpool)

/-- At a place of two pools a brander can be used up in both or in neither. -/
def MovesAlike (pool pool' : Pool ι) (i : Nat) : Prop :=
  (pool'[i]?.bind Brander.owned?).isSome = (pool[i]?.bind Brander.owned?).isSome

section
variable {op : Operation ι β} {n : Nat} (hpool : List.Forall₂ (Brander.StandsFor R) pool pool')
  (hcopies : ∀ on ∈ op.copies?,
    Option.Rel (Brander.CopiedAlike R) (pool.find? on) (pool'.find? (on.behind n)))
include hpool hcopies

/-- The same request of both pools comes to the same checks. -/
theorem errand?_alike (s : σ) :
    Option.Rel (Errand.Alike R) (errand? R pool s op) (errand? R pool' s (op.behind n)) := by
  cases op with
  | add _ | copy _ | refer _ | stored _ | takeStored _ | moveStored _ | describe _ => exact .none
  | check on v =>
    exact rel_map (rel_find? hpool n on) fun h => ⟨h.alike.course, rfl, rfl, rfl⟩
  | brand on v | brandInPlace on v | brandEach on vs =>
    exact rel_map (rel_find? hpool n on) fun h =>
      ⟨h.alike.course, rfl, rfl, by rw [h.alike.mark]⟩
  | call on v =>
    exact rel_map (rel_filter (rel_find? hpool n on) fun h => h.alike.isInfallible) fun h =>
      ⟨h.alike.course, rfl, rfl, by rw [h.alike.mark]⟩
  | callInPlace on v | callEach on vs =>
    exact rel_map (rel_filter (rel_find? hpool n on) fun h => h.alike.isIdentity) fun h =>
      ⟨h.alike.course, rfl, rfl, by rw [h.alike.mark]⟩
  | judge on v =>
    exact rel_map (rel_bind (rel_find? hpool n on) fun h => h.alike.stored?) fun h =>
      ⟨funext fun v => funext fun s => h.routine v s, rfl, rfl, rfl⟩
  | judgeTaken on v =>
    exact rel_map (rel_bind (hcopies on rfl) fun h => h.stored?) fun h =>
      ⟨funext fun v => funext fun t => (h s).1.routine v t, rfl, (h s).2, rfl⟩

/-- What a request does without a check, it does to both pools alike. -/
theorem settle_alike (hmoves : ∀ i ∈ op.moves?, MovesAlike pool pool' i) (s : σ) :
    let done : Answer ι ε π β × Pool ι × σ := settle R pool s op
    let done' : Answer ι ε π β × Pool ι × σ := settle R pool' s (op.behind n)
    done'.1.anonymous = done.1.anonymous ∧
      List.Forall₂ (Brander.StandsFor R) done.2.1 done'.2.1 ∧ done'.2.2 = done.2.2 := by
  have hsize : (.pool (pool'.length + 1) : Answer Unit ε π β) = .pool (pool.length + 1) := by
    rw [hpool.length_eq]
  have hnew : ∀ {b b' : Brander ι}, b.StandsFor R b' →
      List.Forall₂ (Brander.StandsFor R) (pool ++ [b]) (pool' ++ [b']) :=
    fun h => List.rel_append hpool (.cons h .nil)
  cases op with
  | add b =>
    exact ⟨hsize, hnew (.refl b), rfl⟩
  | copy on =>
    have hfound := hcopies on rfl
    simp only [settle, Operation.behind]
    generalize pool.find? on = b, pool'.find? (on.behind n) = b' at hfound ⊢
    cases hfound with
    | none => exact ⟨rfl, hpool, rfl⟩
    | some h =>
      obtain ⟨hstands, hstate⟩ := h.brander s
      exact ⟨hsize, hnew hstands, hstate⟩
  | refer on =>
    have hfound := rel_find? hpool n on
    simp only [settle, Operation.behind]
    generalize pool.find? on = b, pool'.find? (on.behind n) = b' at hfound ⊢
    cases hfound with
    | none => exact ⟨rfl, hpool, rfl⟩
    | some h => exact ⟨hsize, hnew (h.borrowed 1 0), rfl⟩
  | stored on =>
    have hfound := rel_bind (rel_find? hpool n on) fun h => h.alike.stored?
    simp only [settle, Operation.behind]
    generalize (pool.find? on).bind _ = x, (pool'.find? (on.behind n)).bind _ = x' at hfound ⊢
    cases hfound with
    | none => exact ⟨rfl, hpool, rfl⟩
    | some h => exact ⟨rfl, hpool, rfl⟩
  | takeStored on =>
    have hfound := rel_bind (hcopies on rfl) fun h => h.stored?
    simp only [settle, Operation.behind]
    generalize (pool.find? on).bind _ = x, (pool'.find? (on.behind n)).bind _ = x' at hfound ⊢
    cases hfound with
    | none => exact ⟨rfl, hpool, rfl⟩
    | some h => exact ⟨rfl, hpool, (h s).2⟩
  | moveStored index =>
    have hboth : MovesAlike pool pool' index := hmoves index rfl
    unfold MovesAlike at hboth
    simp only [settle, Operation.behind]
    generalize pool[index]?.bind _ = x, pool'[index]?.bind _ = x' at hboth ⊢
    cases x <;> cases x' <;> cases hboth
    · exact ⟨rfl, hpool, rfl⟩
    · exact ⟨rfl, forall₂_eraseIdx hpool index, rfl⟩
  | describe on =>
    have hfound := rel_find? hpool n on
    simp only [settle, Operation.behind]
    generalize pool.find? on = b, pool'.find? (on.behind n) = b' at hfound ⊢
    cases hfound with
    | none => exact ⟨rfl, hpool, rfl⟩
    | some h =>
      simp only [Option.bind_some, h.alike.describe?]
      split
      · exact ⟨rfl, hpool, rfl⟩
      · exact ⟨rfl, hpool, rfl⟩
  | _ => exact ⟨rfl, hpool, rfl⟩

end

end Pool

/-! ## Runs -/

namespace Pool

/-- Requests to a pool, and the same requests to another in which wrapped branders take the place
of branders. A request that copies finds a brander that was not replaced, or one whose copies are
faithful, and a request that uses a brander up finds none behind a reference of a wrapper. -/
inductive Replaced (R : Roster ι σ ε π ρ β) (tracing : Bool) :
    Pool ι → Pool ι → World σ → List (Operation ι β) → List (Operation ι β) → Prop where
  | nil (pool pool' : Pool ι) (w : World σ) : Replaced R tracing pool pool' w [] []
  | add {pool pool' : Pool ι} {w : World σ} {ops ops' : List (Operation ι β)} {b b' : Brander ι}
      (h : b.Wrapped R b') (rest : Replaced R tracing (pool ++ [b]) (pool' ++ [b']) w ops ops') :
      Replaced R tracing pool pool' w (.add b :: ops) (.add b' :: ops')
  | request {pool pool' : Pool ι} {w : World σ} {ops ops' : List (Operation ι β)}
      {op : Operation ι β} (n : Nat)
      (hcopies : ∀ on ∈ op.copies?, pool'.find? (on.behind n) = pool.find? on ∨
        ∀ b ∈ pool.find? on, b.CopiesFaithfully R)
      (hmoves : ∀ i ∈ op.moves?, MovesAlike pool pool' i)
      (rest : Replaced R tracing (step R tracing pool w op).2.1
        (step R tracing pool' w (op.behind n)).2.1 (step R tracing pool w op).2.2 ops ops') :
      Replaced R tracing pool pool' w (op :: ops) (op.behind n :: ops')

theorem Replaced.recorded {tracing : Bool} {pool pool' : Pool ι} {w : World σ}
    {ops ops' : List (Operation ι β)} {label : ι → κ}
    (hlabel : ∀ h s, label (R.duplicate h s).1 = label h)
    (h : Replaced R tracing pool pool' w ops ops') (record : List (Call κ β)) :
    Replaced (R.recorded label) tracing pool pool' (w.beside record) ops ops' := by
  classical
  induction h generalizing record with
  | nil pool pool' w => exact .nil pool pool' _
  | add h _ ih => exact .add (h.recorded hlabel) (ih record)
  | @request pool pool' w ops ops' op n hcopies hmoves _ ih =>
    refine .request n (fun on hon => ?_) hmoves ?_
    · rcases hcopies on hon with hsame | hfaithful
      · exact Or.inl hsame
      · exact Or.inr fun b hb i hi => (hfaithful b hb i hi).recorded hlabel
    · obtain ⟨entries, _, hstep⟩ := step_recorded R label tracing pool w record op
      obtain ⟨_, _, hstep'⟩ := step_recorded R label tracing pool' w record (op.behind n)
      rw [hstep, hstep']
      exact ih (record ++ entries)

variable {pool pool' : Pool ι}

/-- The same request of both pools has the same answer and leaves the same world. -/
theorem step_alike {op : Operation ι β} {n : Nat}
    (hpool : List.Forall₂ (Brander.StandsFor R) pool pool')
    (hcopies : ∀ on ∈ op.copies?,
      Option.Rel (Brander.CopiedAlike R) (pool.find? on) (pool'.find? (on.behind n)))
    (hmoves : ∀ i ∈ op.moves?, MovesAlike pool pool' i) (tracing : Bool) (w : World σ) :
    let done := step R tracing pool w op
    let done' := step R tracing pool' w (op.behind n)
    done'.1.anonymous = done.1.anonymous ∧
      List.Forall₂ (Brander.StandsFor R) done.2.1 done'.2.1 ∧ done'.2.2 = done.2.2 := by
  have hboth := errand?_alike hpool hcopies w.state
  rcases he : errand? R pool w.state op with _ | e <;>
    rcases he' : errand? R pool' w.state (op.behind n) with _ | e' <;>
    rw [he, he'] at hboth <;> cases hboth
  · obtain ⟨hanswer, hpools, hstate⟩ := settle_alike hpool hcopies hmoves w.state
    rw [step_of_no_errand tracing he, step_of_no_errand tracing he']
    exact ⟨hanswer, hpools, by rw [hstate]⟩
  · rename_i hee
    have hcheck : e'.decider.check R tracing = e.decider.check R tracing := by
      funext v w
      rw [Decider.check_eq, Decider.check_eq, hee.course]
    rw [step_of_errand tracing he, step_of_errand tracing he', hcheck, hee.values, hee.state,
      hee.reply]
    exact ⟨rfl, hpool, rfl⟩

theorem run_replaced {tracing : Bool} {w : World σ} {ops ops' : List (Operation ι β)}
    (hpool : List.Forall₂ (Brander.StandsFor R) pool pool')
    (h : Replaced R tracing pool pool' w ops ops') :
    (run R tracing pool' w ops').1.map Answer.anonymous =
        (run R tracing pool w ops).1.map Answer.anonymous ∧
      (run R tracing pool' w ops').2.2 = (run R tracing pool w ops).2.2 := by
  induction h with
  | nil pool pool' w => exact ⟨rfl, rfl⟩
  | @add pool pool' w ops ops' b b' h _ ih =>
    obtain ⟨hanswers, hworld⟩ := ih (List.rel_append hpool (.cons h.standsFor .nil))
    simp only [run, step, List.map_cons, Answer.anonymous, hpool.length_eq]
    exact ⟨congrArg _ hanswers, hworld⟩
  | @request pool pool' w ops ops' op n hcopies hmoves _ ih =>
    have hcopied : ∀ on ∈ op.copies?,
        Option.Rel (Brander.CopiedAlike R) (pool.find? on) (pool'.find? (on.behind n)) := by
      intro on hon
      have hfound := rel_find? hpool n on
      rcases hcopies on hon with hsame | hfaithful
      · rw [hsame]
        exact rel_refl .refl _
      · generalize pool.find? on = b, pool'.find? (on.behind n) = b' at hfound hfaithful ⊢
        cases hfound with
        | none => exact .none
        | some h => exact .some (h.copiedAlike (hfaithful _ rfl))
    obtain ⟨hanswer, hpools, hworld⟩ := step_alike hpool hcopied hmoves tracing w
    obtain ⟨hanswers, hlast⟩ := ih hpools
    simp only [run, List.map_cons, hanswer, hworld]
    exact ⟨congrArg _ hanswers, hlast⟩

end Pool

end

/-! ## The law -/

/-- Wrapping a brander changes nothing: it brands as before, it makes the same calls, and a
validator that sends values through it goes as before. A run in which wrapped branders take the
place of branders, in the pool, in a request or inside a validator, has the same answers and leaves
the same world with the same calls. -/
theorem wrapping_a_brander_changes_nothing {R R' : Roster ι σ ε π ρ β} (hR : R.Alike R')
    {label : ι → κ} (hlabel : ∀ h s, label (R.duplicate h s).1 = label h) :
    (∀ b b' : Brander ι, b.Wrapped R b' →
      (∀ tracing, b.BrandsAs R R' tracing b' ∧
        b.BrandsAs (R.recorded label) (R'.recorded label) tracing b') ∧
      ∀ k k' : Outcome ε π Unit → Routine σ ε π ρ, (∀ o, (k o).Alike (k' o)) →
        (∀ v, (b.within R v k).Alike (b'.within R' v k')) ∧
          ∀ vs, (b.withinEach R k vs).Alike (b'.withinEach R' k' vs)) ∧
    ∀ (tracing : Bool) (pool pool' : Pool ι) (w : World σ) (ops ops' : List (Operation ι β)),
      List.Forall₂ (Brander.Wrapped R) pool pool' →
      Pool.Replaced R tracing pool pool' w ops ops' →
        (Pool.run R' tracing pool' w ops').1.map Answer.anonymous =
            (Pool.run R tracing pool w ops).1.map Answer.anonymous ∧
          (Pool.run R' tracing pool' w ops').2.2 = (Pool.run R tracing pool w ops).2.2 ∧
          ∀ record : List (Call κ β),
            (Pool.run (R'.recorded label) tracing pool' (w.beside record) ops').2.2 =
              (Pool.run (R.recorded label) tracing pool (w.beside record) ops).2.2 := by
  have hrec := hR.recorded label
  refine ⟨fun b b' h => ⟨fun tracing => ⟨h.alike.brandsAs hR tracing, ?_⟩, fun k k' hk => ?_⟩, ?_⟩
  · exact (h.recorded hlabel).alike.brandsAs hrec tracing
  · exact ⟨h.alike.within hR hk, h.alike.withinEach hR hk⟩
  intro tracing pool pool' w ops ops' hpool hops
  have hstands := hpool.imp fun _ _ h => h.standsFor
  obtain ⟨hanswers, hworld⟩ := Pool.run_replaced hstands hops
  refine ⟨?_, ?_, fun record => ?_⟩
  · rw [Pool.run_of_alike hR]
    exact hanswers
  · rw [Pool.run_of_alike hR]
    exact hworld
  · have hstands' := hpool.imp fun _ _ h => (h.recorded hlabel).standsFor
    rw [Pool.run_of_alike hrec]
    exact (Pool.run_replaced hstands' (hops.recorded hlabel record)).2

/-- Refuses odd numbers. -/
def refusingOdd : Roster Unit Nat String String Unit Nat where
  base _ := .named "u64"
  judge _ v := .finish (if v % 2 = 0 then .accepted () else .rejected "odd")
  alarm := id
  duplicate i s := (i, s)

/-- The brander for even numbers. -/
def evenNumber : Brander Unit := .validated ⟨.named "Even", .defaultField⟩ (.function ())

/-- Ends as a check ended, except that it panics at large numbers. -/
def refusingLarge (v : Nat) : Outcome String String Unit → Routine Nat String String Unit
  | .accepted u => .finish (if v < 10 then .accepted u else .panicked "large")
  | refused => .finish refused

/-- Counts its calls, sends each number through a brander, and panics at large numbers. Only their
handles tell its copies apart. -/
def countingThrough (b : Brander Unit) : Roster Nat Nat String String Unit Nat where
  base _ := .named "u64"
  judge _ v := .read fun n => .write (n + 1) (b.within refusingOdd v (refusingLarge v))
  alarm := id
  duplicate i s := (i + 1, s)

theorem countingThrough_alike {b b' : Brander Unit} (h : b.Alike refusingOdd b') :
    (countingThrough b).Alike (countingThrough b') where
  base := rfl
  judge _ v s := h.within (.refl refusingOdd) (fun o => .refl (refusingLarge v o)) v (s + 1)
  alarm := rfl
  duplicate := rfl

/-- A copy of the validator, behind a reference in a brander that is itself borrowed, and once more
for one request, counts and reports as the bare one does. -/
theorem a_stack_on_a_counting_brander :
    let R := countingThrough evenNumber
    let R' := countingThrough (.reference evenNumber)
    let mark : Mark := ⟨.named "Small", .defaultField⟩
    let bare : Brander Nat := .validated mark (.function 0)
    let wrapped : Brander Nat := .reference (.validated mark (.reference (.function 1)))
    let ops : List (Operation Nat Nat) :=
      [.brand ⟨0, 0⟩ 4, .copy ⟨0, 0⟩, .brandEach ⟨1, 0⟩ [2, 3, 6], .check ⟨0, 0⟩ 12]
    let ops' : List (Operation Nat Nat) :=
      [.brand ⟨0, 2⟩ 4, .copy ⟨0, 0⟩, .brandEach ⟨1, 1⟩ [2, 3, 6], .check ⟨0, 0⟩ 12]
    let label : Nat → Unit := fun _ => ()
    let start : World Nat := ⟨0, []⟩
    let run := Pool.run R true [bare] start ops
    R.Alike R' ∧ bare.Wrapped R wrapped ∧ Pool.Replaced R true [bare] [wrapped] start ops ops' ∧
      (Pool.run R' true [wrapped] start ops').2.2 = run.2.2 ∧ run.2.2.state = 4 ∧
      run.2.2.events.map Event.accepted = [true, true, true, true, false, false, true] ∧
      (Pool.run (R'.recorded label) true [wrapped] (start.beside []) ops').2.2 =
        (Pool.run (R.recorded label) true [bare] (start.beside []) ops).2.2 := by
  intro R R' mark bare wrapped ops ops' label start run
  have hR : R.Alike R' := countingThrough_alike (.borrowed evenNumber)
  have hacts : ∀ i i', R.ActsAs i i' := fun _ _ _ => .refl _
  have hwrapped : bare.Wrapped R wrapped :=
    .borrowed (.remadeByReference (.copied .bare 0 fun _ _ _ _ => hacts _ _) rfl)
  have hcopies : ∀ b : Brander Nat, b.CopiesFaithfully R :=
    fun _ _ _ _ _ => ⟨hacts _ _, fun _ => rfl⟩
  have hreplaced : Pool.Replaced R true [bare] [wrapped] start ops ops' := by
    have hmoves : ∀ (pool pool' : Pool Nat), ∀ i ∈ (none : Option Nat),
        Pool.MovesAlike pool pool' i := fun _ _ _ hi => nomatch hi
    refine .request 2 (fun _ _ => Or.inr fun b _ => hcopies b) (hmoves _ _) ?_
    refine .request 0 (fun _ _ => Or.inr fun b _ => hcopies b) (hmoves _ _) ?_
    refine .request 1 (fun _ _ => Or.inr fun b _ => hcopies b) (hmoves _ _) ?_
    refine .request 0 (fun _ _ => Or.inr fun b _ => hcopies b) (hmoves _ _) ?_
    exact .nil _ _ _
  have hlabel : ∀ h s, label (R.duplicate h s).1 = label h := fun _ _ => rfl
  obtain ⟨_, hruns⟩ := wrapping_a_brander_changes_nothing hR hlabel
  obtain ⟨_, hworld, hnoted⟩ :=
    hruns true [bare] [wrapped] start ops ops' (.cons hwrapped .nil) hreplaced
  exact ⟨hR, hwrapped, hreplaced, hworld, rfl, rfl, hnoted []⟩

end NominalBrand
