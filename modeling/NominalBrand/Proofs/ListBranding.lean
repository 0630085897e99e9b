-- The laws of branding a list. The values are checked one after the other,
-- each in the world that the one before it left, and the first that is not
-- accepted ends the branding. A check may change the world as it likes, so
-- every law speaks of the world in which a value has its turn.
import NominalBrand.Check

namespace NominalBrand

variable {σ ε π β γ δ κ μ : Type}

/-! ## Worlds with a record -/

namespace World

/-- The same world with a record beside the outside state. -/
def beside (w : World σ) (record : List γ) : World (σ × List γ) := ⟨(w.state, record), w.events⟩

/-- The world without the record. -/
def withoutRecord (w : World (σ × List γ)) : World σ := ⟨w.state.1, w.events⟩

@[simp] theorem withoutRecord_beside (w : World σ) (record : List γ) :
    (w.beside record).withoutRecord = w := rfl

@[simp] theorem state_beside (w : World σ) (record : List γ) :
    (w.beside record).state = (w.state, record) := rfl

end World

namespace Check

/-! ## The turn of each value -/

/-- The world that the checks of these values leave, one after the other. -/
def leftBy (c : Check σ ε π β) (w : World σ) (values : List β) : World σ :=
  values.foldl (fun w v => (c v w).2) w

/-- How the check at a place of the list ends, in the world that the checks before it left. -/
def verdictAt? (c : Check σ ε π β) (w : World σ) (values : List β) (i : Nat) :
    Option (Outcome ε π Unit) :=
  values[i]?.map fun v => (c v (c.leftBy w (values.take i))).1

/-- Every value is accepted when its turn comes. -/
def AllAccepted (c : Check σ ε π β) (w : World σ) (values : List β) : Prop :=
  ∀ i < values.length, c.verdictAt? w values i = some (.accepted ())

/-- Place `k` holds the first value that is not accepted, and its check ends as `o`. -/
structure FirstRefusal (c : Check σ ε π β) (w : World σ) (values : List β) (k : Nat)
    (o : Outcome ε π Unit) : Prop where
  verdict : c.verdictAt? w values k = some o
  refused : o ≠ .accepted ()
  before : ∀ i < k, c.verdictAt? w values i = some (.accepted ())

theorem verdictAt?_zero (c : Check σ ε π β) (w : World σ) (v : β) (vs : List β) :
    c.verdictAt? w (v :: vs) 0 = some (c v w).1 := rfl

theorem verdictAt?_succ (c : Check σ ε π β) (w : World σ) (v : β) (vs : List β) (i : Nat) :
    c.verdictAt? w (v :: vs) (i + 1) = c.verdictAt? (c v w).2 vs i := rfl

theorem allAccepted_nil (c : Check σ ε π β) (w : World σ) : c.AllAccepted w [] := by
  intro i hi
  simp at hi

theorem allAccepted_cons (c : Check σ ε π β) (w : World σ) (v : β) (vs : List β) :
    c.AllAccepted w (v :: vs) ↔ (c v w).1 = .accepted () ∧ c.AllAccepted (c v w).2 vs := by
  constructor
  · intro h
    refine ⟨Option.some.inj (h 0 (Nat.zero_lt_succ _)), fun i hi => ?_⟩
    exact h (i + 1) (Nat.succ_lt_succ hi)
  · rintro ⟨hv, hvs⟩ i hi
    cases i with
    | zero => rw [verdictAt?_zero, hv]
    | succ i => exact hvs i (Nat.lt_of_succ_lt_succ hi)

theorem not_firstRefusal_nil (c : Check σ ε π β) (w : World σ) (k : Nat) (o : Outcome ε π Unit) :
    ¬ c.FirstRefusal w [] k o := by
  intro h
  have hk := h.verdict
  simp [verdictAt?] at hk

theorem firstRefusal_zero (c : Check σ ε π β) (w : World σ) (v : β) (vs : List β)
    (o : Outcome ε π Unit) :
    c.FirstRefusal w (v :: vs) 0 o ↔ (c v w).1 = o ∧ o ≠ .accepted () := by
  constructor
  · intro h
    exact ⟨Option.some.inj h.verdict, h.refused⟩
  · rintro ⟨rfl, ho⟩
    exact ⟨rfl, ho, fun i hi => absurd hi (Nat.not_lt_zero i)⟩

theorem firstRefusal_succ (c : Check σ ε π β) (w : World σ) (v : β) (vs : List β) (k : Nat)
    (o : Outcome ε π Unit) :
    c.FirstRefusal w (v :: vs) (k + 1) o ↔
      (c v w).1 = .accepted () ∧ c.FirstRefusal (c v w).2 vs k o := by
  constructor
  · intro h
    refine ⟨Option.some.inj (h.before 0 (Nat.zero_lt_succ k)), h.verdict, h.refused, ?_⟩
    intro i hi
    exact h.before (i + 1) (Nat.succ_lt_succ hi)
  · rintro ⟨hv, h⟩
    refine ⟨h.verdict, h.refused, fun i hi => ?_⟩
    cases i with
    | zero => rw [verdictAt?_zero, hv]
    | succ i => exact h.before i (Nat.lt_of_succ_lt_succ hi)

/-- A list is accepted as a whole, or one of its values is the first that is not. -/
theorem allAccepted_or_firstRefusal (c : Check σ ε π β) (w : World σ) (values : List β) :
    c.AllAccepted w values ∨ ∃ k o, c.FirstRefusal w values k o := by
  induction values generalizing w with
  | nil => exact Or.inl (allAccepted_nil c w)
  | cons v vs ih =>
    by_cases hv : (c v w).1 = .accepted ()
    · rcases ih (c v w).2 with hall | ⟨k, o, hk⟩
      · exact Or.inl ((allAccepted_cons c w v vs).mpr ⟨hv, hall⟩)
      · exact Or.inr ⟨k + 1, o, (firstRefusal_succ c w v vs k o).mpr ⟨hv, hk⟩⟩
    · exact Or.inr ⟨0, (c v w).1, (firstRefusal_zero c w v vs _).mpr ⟨rfl, hv⟩⟩

/-! ## How checking a list ends -/

/-- An accepted value hands the rest of the list on, in the world that its check left. -/
theorem each_cons_of_accepted {c : Check σ ε π β} {w : World σ} {v : β} {vs : List β}
    (h : (c v w).1 = .accepted ()) : c.each (v :: vs) w = c.each vs (c v w).2 :=
  each_cons_accepted (Prod.ext h rfl)

/-- A value that is not accepted decides for the whole list. -/
theorem each_cons_of_refused {c : Check σ ε π β} {w : World σ} {v : β} {vs : List β}
    (h : (c v w).1 ≠ .accepted ()) : c.each (v :: vs) w = c v w := by
  rcases hc : c v w with ⟨o, w'⟩
  rw [hc] at h
  cases o with
  | accepted u => exact absurd rfl h
  | rejected e => exact each_cons_rejected hc
  | panicked p => exact each_cons_panicked hc

theorem each_of_allAccepted {c : Check σ ε π β} {w : World σ} {values : List β}
    (h : c.AllAccepted w values) : c.each values w = (.accepted (), c.leftBy w values) := by
  induction values generalizing w with
  | nil => rfl
  | cons v vs ih =>
    obtain ⟨hv, hvs⟩ := (allAccepted_cons c w v vs).mp h
    rw [each_cons_of_accepted hv, ih hvs]
    rfl

theorem each_of_firstRefusal {c : Check σ ε π β} {w : World σ} {values : List β} {k : Nat}
    {o : Outcome ε π Unit} (h : c.FirstRefusal w values k o) :
    c.each values w = (o, c.leftBy w (values.take (k + 1))) := by
  induction values generalizing w k with
  | nil => exact absurd h (not_firstRefusal_nil c w k o)
  | cons v vs ih =>
    cases k with
    | zero =>
      obtain ⟨rfl, ho⟩ := (firstRefusal_zero c w v vs o).mp h
      rw [each_cons_of_refused ho]
      rfl
    | succ k =>
      obtain ⟨hv, hk⟩ := (firstRefusal_succ c w v vs k o).mp h
      rw [each_cons_of_accepted hv, ih hk]
      rfl

theorem each_eq_accepted_iff (c : Check σ ε π β) (w w' : World σ) (values : List β) :
    c.each values w = (.accepted (), w') ↔
      c.AllAccepted w values ∧ w' = c.leftBy w values := by
  constructor
  · intro h
    rcases allAccepted_or_firstRefusal c w values with hall | ⟨k, o, hk⟩
    · rw [each_of_allAccepted hall] at h
      exact ⟨hall, (Prod.mk.inj h).2.symm⟩
    · rw [each_of_firstRefusal hk] at h
      exact absurd (Prod.mk.inj h).1 hk.refused
  · rintro ⟨hall, rfl⟩
    exact each_of_allAccepted hall

/-- Each value of a list that is accepted as a whole is accepted by itself, in some world. -/
theorem accepted_of_mem_each {c : Check σ ε π β} {w : World σ} {values : List β}
    (h : (c.each values w).1 = .accepted ()) {v : β} (hv : v ∈ values) :
    ∃ w', (c v w').1 = .accepted () := by
  obtain ⟨hall, _⟩ := (each_eq_accepted_iff c w _ values).mp (Prod.ext h rfl)
  obtain ⟨i, hi, rfl⟩ := List.mem_iff_getElem.mp hv
  have hturn := hall i hi
  unfold verdictAt? at hturn
  rw [List.getElem?_eq_getElem hi] at hturn
  exact ⟨_, Option.some.inj hturn⟩

theorem each_eq_refused_iff (c : Check σ ε π β) (w w' : World σ) (values : List β)
    {o : Outcome ε π Unit} (ho : o ≠ .accepted ()) :
    c.each values w = (o, w') ↔
      ∃ k, c.FirstRefusal w values k o ∧ w' = c.leftBy w (values.take (k + 1)) := by
  constructor
  · intro h
    rcases allAccepted_or_firstRefusal c w values with hall | ⟨k, o', hk⟩
    · rw [each_of_allAccepted hall] at h
      exact absurd (Prod.mk.inj h).1.symm ho
    · rw [each_of_firstRefusal hk] at h
      obtain ⟨rfl, rfl⟩ := Prod.mk.inj h
      exact ⟨k, hk, rfl⟩
  · rintro ⟨k, hk, rfl⟩
    exact each_of_firstRefusal hk

/-! ## Branding is checking -/

theorem each_singleton (c : Check σ ε π β) (v : β) (w : World σ) : c.each [v] w = c v w := by
  by_cases h : (c v w).1 = .accepted ()
  · rw [each_cons_of_accepted h, each_nil, ← h]
  · exact each_cons_of_refused h

theorem brand_apply (c : Check σ ε π β) (mark : μ) (v : β) (w : World σ) :
    c.brand mark v w = ((c v w).1.map fun _ => ⟨v⟩, (c v w).2) := by
  rcases h : c v w with ⟨o, w'⟩
  unfold brand
  rw [Action.bind_apply]
  unfold Action.andThen
  rw [h]
  cases o <;> rfl

theorem brandInPlace_apply (c : Check σ ε π β) (mark : μ) (v : β) (w : World σ) :
    c.brandInPlace mark v w = ((c v w).1.map fun _ => ⟨v⟩, (c v w).2) := brand_apply c mark v w

theorem brandEach_apply (c : Check σ ε π β) (mark : μ) (values : List β) (w : World σ) :
    c.brandEach mark values w =
      ((c.each values w).1.map fun _ => Brand.ofList mark values, (c.each values w).2) := by
  rcases h : c.each values w with ⟨o, w'⟩
  unfold brandEach
  rw [Action.bind_apply]
  unfold Action.andThen
  rw [h]
  cases o <;> rfl

/-- A branded list is the list itself, place by place, under the brand. -/
theorem eq_ofList_iff (mark : μ) (branded : List (Brand mark β)) (values : List β) :
    branded = Brand.ofList mark values ↔
      branded.length = values.length ∧ ∀ i : Nat, branded[i]?.map Brand.base = values[i]? := by
  constructor
  · rintro rfl
    refine ⟨Brand.length_ofList values, fun i => ?_⟩
    rw [← List.getElem?_map]
    exact congrArg (·[i]?) (Brand.bases_ofList values)
  · rintro ⟨_, h⟩
    have hbases : Brand.bases branded = values := by
      apply List.ext_getElem?
      intro i
      rw [← h i]
      exact List.getElem?_map
    rw [← hbases]
    unfold Brand.ofList Brand.bases
    rw [List.map_map]
    exact (List.map_id branded).symm

theorem brandEach_eq_accepted_iff (c : Check σ ε π β) (mark : μ) (values : List β) (w w' : World σ)
    (branded : List (Brand mark β)) :
    c.brandEach mark values w = (.accepted branded, w') ↔
      c.each values w = (.accepted (), w') ∧ branded = Brand.ofList mark values := by
  rw [brandEach_apply]
  rcases c.each values w with ⟨o, w''⟩
  cases o <;> simp [Outcome.map, and_comm, eq_comm]

theorem brandEach_eq_rejected_iff (c : Check σ ε π β) (mark : μ) (values : List β) (w w' : World σ)
    (e : ε) :
    c.brandEach mark values w = (.rejected e, w') ↔ c.each values w = (.rejected e, w') := by
  rw [brandEach_apply]
  rcases c.each values w with ⟨o, w''⟩
  cases o <;> simp [Outcome.map]

theorem brandEach_eq_panicked_iff (c : Check σ ε π β) (mark : μ) (values : List β) (w w' : World σ)
    (p : π) :
    c.brandEach mark values w = (.panicked p, w') ↔ c.each values w = (.panicked p, w') := by
  rw [brandEach_apply]
  rcases c.each values w with ⟨o, w''⟩
  cases o <;> simp [Outcome.map]

/-! ## The values that are checked -/

/-- The values of a list whose turn comes: those up to the first that is not accepted. -/
def checked (c : Check σ ε π β) (w : World σ) : List β → List β
  | [] => []
  | v :: vs => v :: match (c v w).1 with
    | .accepted _ => c.checked (c v w).2 vs
    | _ => []

theorem checked_cons_of_accepted {c : Check σ ε π β} {w : World σ} {v : β} {vs : List β}
    (h : (c v w).1 = .accepted ()) :
    c.checked w (v :: vs) = v :: c.checked (c v w).2 vs := by
  simp only [checked, h]

theorem checked_cons_of_refused {c : Check σ ε π β} {w : World σ} {v : β} {vs : List β}
    (h : (c v w).1 ≠ .accepted ()) : c.checked w (v :: vs) = [v] := by
  unfold checked
  split
  · rename_i u hu
    exact absurd hu h
  · rfl

theorem checked_singleton (c : Check σ ε π β) (w : World σ) (v : β) : c.checked w [v] = [v] := by
  by_cases h : (c v w).1 = .accepted ()
  · rw [checked_cons_of_accepted h, checked]
  · exact checked_cons_of_refused h

theorem checked_of_allAccepted {c : Check σ ε π β} {w : World σ} {values : List β}
    (h : c.AllAccepted w values) : c.checked w values = values := by
  induction values generalizing w with
  | nil => rfl
  | cons v vs ih =>
    obtain ⟨hv, hvs⟩ := (allAccepted_cons c w v vs).mp h
    rw [checked_cons_of_accepted hv, ih hvs]

theorem checked_of_firstRefusal {c : Check σ ε π β} {w : World σ} {values : List β} {k : Nat}
    {o : Outcome ε π Unit} (h : c.FirstRefusal w values k o) :
    c.checked w values = values.take (k + 1) := by
  induction values generalizing w k with
  | nil => exact absurd h (not_firstRefusal_nil c w k o)
  | cons v vs ih =>
    cases k with
    | zero =>
      obtain ⟨rfl, ho⟩ := (firstRefusal_zero c w v vs o).mp h
      rw [checked_cons_of_refused ho]
      rfl
    | succ k =>
      obtain ⟨hv, hk⟩ := (firstRefusal_succ c w v vs k o).mp h
      rw [checked_cons_of_accepted hv, ih hk]
      rfl

-- A check that accepts two values, whichever come first, and rejects the third.
example : checked (fun v w => if w.state < 2 then (.accepted (), { w with state := w.state + 1 })
      else (.rejected v, w) : Check Nat Nat Empty Nat) ⟨0, []⟩ [7, 7, 8, 9] = [7, 7, 8] := rfl

/-- `c'` does what `c` does and also keeps a record. To a reader `k` of the record, who takes from
an entry what `shows k` says, the check of a value adds `note k` of the value. -/
def RecordedBy (c : Check σ ε π β) (c' : Check (σ × List γ) ε π β) (shows : κ → γ → Option δ)
    (note : κ → β → List δ) : Prop :=
  ∀ v w record, ∃ entries, (∀ k, entries.filterMap (shows k) = note k v) ∧
    c' v (w.beside record) = ((c v w).1, (c v w).2.beside (record ++ entries))

/-- The record of a whole list shows the values that were checked, and no other. -/
theorem each_recordedBy {c : Check σ ε π β} {c' : Check (σ × List γ) ε π β}
    {shows : κ → γ → Option δ} {note : κ → β → List δ} (h : c.RecordedBy c' shows note)
    (values : List β) (w : World σ) (record : List γ) :
    ∃ entries, (∀ k, entries.filterMap (shows k) = (c.checked w values).flatMap (note k)) ∧
      c'.each values (w.beside record) =
        ((c.each values w).1, (c.each values w).2.beside (record ++ entries)) := by
  induction values generalizing w record with
  | nil => exact ⟨[], fun _ => rfl, by rw [List.append_nil]; rfl⟩
  | cons v vs ih =>
    obtain ⟨first, hfirst, hv⟩ := h v w record
    by_cases ha : (c v w).1 = .accepted ()
    · have ha' : (c' v (w.beside record)).1 = .accepted () := by rw [hv, ha]
      obtain ⟨rest, hrest, hvs⟩ := ih (c v w).2 (record ++ first)
      refine ⟨first ++ rest, fun k => ?_, ?_⟩
      · rw [List.filterMap_append, hfirst, hrest, checked_cons_of_accepted ha, List.flatMap_cons]
      · rw [each_cons_of_accepted ha', each_cons_of_accepted ha, hv, hvs, List.append_assoc]
    · have ha' : (c' v (w.beside record)).1 ≠ .accepted () := by rw [hv]; exact ha
      refine ⟨first, fun k => ?_, ?_⟩
      · rw [hfirst, checked_cons_of_refused ha, List.flatMap_singleton]
      · rw [each_cons_of_refused ha', each_cons_of_refused ha, hv]

/-- The same check, which also records every value that it is called with. -/
def recorded (c : Check σ ε π β) : Check (σ × List β) ε π β := fun v w =>
  let (o, after) := c v w.withoutRecord
  (o, after.beside (w.state.2 ++ [v]))

theorem recordedBy_recorded (c : Check σ ε π β) :
    c.RecordedBy c.recorded (fun _ : Unit => some) fun _ v => [v] := by
  intro v w record
  exact ⟨[v], fun _ => rfl, rfl⟩

theorem each_recorded (c : Check σ ε π β) (values : List β) (w : World σ) (record : List β) :
    c.recorded.each values (w.beside record) =
      ((c.each values w).1, (c.each values w).2.beside (record ++ c.checked w values)) := by
  obtain ⟨entries, hentries, h⟩ := each_recordedBy c.recordedBy_recorded values w record
  have he : entries = c.checked w values := by
    have hunit := hentries ()
    rwa [List.filterMap_some, List.flatMap_singleton'] at hunit
  rw [h, he]

/-! ## The law -/

/-- A list is branded exactly when each value is accepted in its turn. Otherwise the first
value that is not accepted decides: its error or its panic comes out as it was raised, the
world is the one that its check left, and no value after it is ever checked. -/
theorem a_list_is_branded_up_to_the_first_refusal (c : Check σ ε π β) (mark : μ)
    (values : List β) (w : World σ) :
    (∀ branded w', c.brandEach mark values w = (.accepted branded, w') ↔
      c.AllAccepted w values ∧ w' = c.leftBy w values ∧
        branded.length = values.length ∧ ∀ i : Nat, branded[i]?.map Brand.base = values[i]?) ∧
    (∀ e w', c.brandEach mark values w = (.rejected e, w') ↔
      ∃ k, c.FirstRefusal w values k (.rejected e) ∧
        w' = c.leftBy w (values.take (k + 1))) ∧
    (∀ p w', c.brandEach mark values w = (.panicked p, w') ↔
      ∃ k, c.FirstRefusal w values k (.panicked p) ∧
        w' = c.leftBy w (values.take (k + 1))) ∧
    (∀ record, c.AllAccepted w values →
      (c.recorded.brandEach mark values (w.beside record)).2 =
        (c.leftBy w values).beside (record ++ values)) ∧
    ∀ record k o, c.FirstRefusal w values k o →
      (c.recorded.brandEach mark values (w.beside record)).2 =
        (c.leftBy w (values.take (k + 1))).beside (record ++ values.take (k + 1)) := by
  refine ⟨fun branded w' => ?_, fun e w' => ?_, fun p w' => ?_, fun record h => ?_,
    fun record k o h => ?_⟩
  · rw [brandEach_eq_accepted_iff, each_eq_accepted_iff, eq_ofList_iff, and_assoc]
  · rw [brandEach_eq_rejected_iff]
    exact each_eq_refused_iff c w w' values (by simp)
  · rw [brandEach_eq_panicked_iff]
    exact each_eq_refused_iff c w w' values (by simp)
  · rw [brandEach_apply, each_recorded, each_of_allAccepted h, checked_of_allAccepted h]
  · rw [brandEach_apply, each_recorded, each_of_firstRefusal h, checked_of_firstRefusal h]

end Check

end NominalBrand
