-- The laws of the ordered map. Its keys ascend, so a search that stops at the
-- first key past its place finds what a search of the whole list finds, and
-- the entries between two keys are those that lie between them.
import NominalBrand.Keyed.Ordered
import NominalBrand.Proofs.Keyed.Contents
import NominalBrand.Proofs.Keyed.Entries

namespace NominalBrand.Keyed.Ordered

variable {μ β ν : Type} {mark : μ} {cmp : β → β → Ordering} {m : Ordered mark β ν}

/-- Each key is below all that come after it. -/
def Ascending (cmp : β → β → Ordering) (m : Ordered mark β ν) : Prop :=
  m.Pairwise fun a b => cmp a.1.base b.1.base = .lt

theorem Ascending.bases (h : Ascending cmp m) :
    (m.map bare).Pairwise fun a b => cmp a.1 b.1 = .lt := List.pairwise_map.mpr h

theorem Ascending.distinct (h : Ascending cmp m) :
    Plain.Distinct (levelBy cmp) (m.map bare) := by
  refine List.Pairwise.imp (fun {a b} hab => ?_) h.bases
  unfold levelBy
  rw [hab]
  rfl

theorem Ascending.inOrder (h : Ascending cmp m) : Plain.inOrder cmp (m.map bare) = m.map bare :=
  Plain.inOrder_of_ascending h.bases

variable [Std.TransCmp cmp]

/-- A key that is not above the first one is below all the others. -/
theorem Ascending.below {e : Brand mark β × ν} (h : Ascending cmp (e :: m)) {key : β}
    (hkey : cmp key e.1.base ≠ .gt) : ∀ e' ∈ m, cmp key e'.1.base = .lt := by
  intro e' he'
  have hafter := (List.pairwise_cons.mp h).1 e' he'
  exact Std.TransCmp.lt_of_isLE_of_lt (Ordering.isLE_iff_ne_gt.mpr hkey) hafter

theorem Ascending.not_level {e : Brand mark β × ν} (h : Ascending cmp (e :: m)) {key : β}
    (hkey : cmp key e.1.base ≠ .gt) : ∀ e' ∈ m, levelBy cmp key e'.1.base = false := by
  intro e' he'
  unfold levelBy
  rw [h.below hkey e' he']
  rfl

/-! ## Looking entries up -/

theorem find?_eq (h : Ascending cmp m) (key : β) :
    m.find? (fun k => cmp key k.base) =
      List.find? (fun e => levelBy cmp key e.1.base) m := by
  induction m with
  | nil => rfl
  | cons e m ih =>
    have hm : Ascending cmp m := (List.pairwise_cons.mp h).2
    rw [Ordered.find?, List.find?_cons]
    rcases hkey : cmp key e.1.base with _ | _ | _
    · have hnone : List.find? (fun e => levelBy cmp key e.1.base) m = none := by
        rw [List.find?_eq_none]
        intro e' he'
        rw [h.not_level (by simp [hkey]) e' he']
        exact Bool.false_ne_true
      simp only [levelBy, hkey]
      exact hnone.symm
    · simp only [levelBy, hkey]
      rfl
    · simp only [levelBy, hkey]
      exact ih hm

theorem find?_bare (h : Ascending cmp m) (key : β) :
    (m.find? fun k => cmp key k.base).map bare =
      Plain.find? (levelBy cmp) key (m.map bare) := by
  rw [find?_eq h]
  unfold Plain.find?
  rw [List.find?_map]
  rfl

/-! ## Taking entries out -/

theorem erase_eq (h : Ascending cmp m) (key : β) :
    m.erase (fun k => cmp key k.base) = m.filter fun e => !levelBy cmp key e.1.base := by
  induction m with
  | nil => rfl
  | cons e m ih =>
    have hm : Ascending cmp m := (List.pairwise_cons.mp h).2
    rw [Ordered.erase, List.filter_cons]
    by_cases hgt : cmp key e.1.base = .gt
    · simp only [levelBy, hgt]
      exact congrArg (e :: ·) (ih hm)
    · have hrest : m.filter (fun e => !levelBy cmp key e.1.base) = m := by
        rw [List.filter_eq_self]
        intro e' he'
        rw [h.not_level hgt e' he']
        rfl
      rw [hrest]
      rcases hkey : cmp key e.1.base with _ | _ | _
      · simp only [levelBy, hkey]
        rfl
      · simp only [levelBy, hkey]
        rfl
      · exact absurd hkey hgt

theorem Ascending.erase (h : Ascending cmp m) (key : β) :
    Ascending cmp (m.erase fun k => cmp key k.base) := by
  rw [erase_eq h]
  exact List.Pairwise.filter _ h

theorem erase_bare (h : Ascending cmp m) (key : β) :
    (m.erase fun k => cmp key k.base).map bare = Plain.erase (levelBy cmp) key (m.map bare) := by
  rw [erase_eq h]
  unfold Plain.erase
  rw [List.filter_map]
  rfl

/-! ## Putting entries in -/

/-- The order of brands is the order of their bases. -/
def onBases (mark : μ) (cmp : β → β → Ordering) (a b : Brand mark β) : Ordering :=
  cmp a.base b.base

omit [Std.TransCmp cmp] in
theorem insert_of_absent {key : Brand mark β} (value : ν)
    (habsent : ∀ e ∈ m, levelBy cmp key.base e.1.base = false) :
    (m.insert (onBases mark cmp) key value).1 = none ∧
      (m.insert (onBases mark cmp) key value).2.Perm ((key, value) :: m) := by
  induction m with
  | nil => exact ⟨rfl, List.Perm.refl _⟩
  | cons e m ih =>
    obtain ⟨hold, hperm⟩ := ih fun e' he' => habsent e' (List.mem_cons_of_mem _ he')
    have hhead := habsent e List.mem_cons_self
    unfold levelBy at hhead
    rw [Ordered.insert, onBases]
    rcases hkey : cmp key.base e.1.base with _ | _ | _
    · exact ⟨rfl, List.Perm.refl _⟩
    · rw [hkey] at hhead
      contradiction
    · exact ⟨hold, (List.Perm.cons e hperm).trans (List.Perm.swap _ _ _)⟩

theorem insert_of_present (h : Ascending cmp m) {key : Brand mark β} (value : ν)
    {e : Brand mark β × ν} (he : e ∈ m) (hkey : levelBy cmp key.base e.1.base = true) :
    (m.insert (onBases mark cmp) key value).1 = some e.2 ∧
      (m.insert (onBases mark cmp) key value).2 =
        replaced (fun k => levelBy cmp key.base k.base) value m := by
  induction m with
  | nil => simp at he
  | cons first m ih =>
    have hm : Ascending cmp m := (List.pairwise_cons.mp h).2
    rw [Ordered.insert, onBases]
    by_cases hgt : cmp key.base first.1.base = .gt
    · have hin : e ∈ m := by
        rcases List.mem_cons.mp he with rfl | hin
        · unfold levelBy at hkey
          rw [hgt] at hkey
          contradiction
        · exact hin
      obtain ⟨hold, hrest⟩ := ih hm hin
      simp only [replaced, List.map_cons, levelBy, hgt]
      exact ⟨hold, congrArg (first :: ·) hrest⟩
    · -- The key stands at or before the first one, so no later key is level with it.
      have hlater := h.not_level hgt
      have hfirst : e = first := by
        rcases List.mem_cons.mp he with rfl | hin
        · rfl
        · rw [hlater e hin] at hkey
          contradiction
      subst hfirst
      have hrest : replaced (fun k => levelBy cmp key.base k.base) value m = m :=
        replaced_of_absent hlater value
      have hlevel : cmp key.base e.1.base = .eq := beq_iff_eq.mp hkey
      rw [hlevel, replaced, List.map_cons, if_pos hkey]
      exact ⟨rfl, congrArg ((e.1, value) :: ·) hrest.symm⟩

omit [Std.TransCmp cmp] in
theorem key_of_mem_insert {key : Brand mark β} {value : ν} {e : Brand mark β × ν}
    (he : e ∈ (m.insert (onBases mark cmp) key value).2) :
    e.1 = key ∨ ∃ e' ∈ m, e'.1 = e.1 := by
  have hm : Holds (fun k => k = key ∨ ∃ e' ∈ m, e'.1 = k) (fun _ : ν => True) m :=
    fun e' he' => ⟨Or.inr ⟨e', he', rfl⟩, trivial⟩
  exact ((holds_insert (onBases mark cmp) hm (Or.inl rfl) trivial).2 e he).1

theorem Ascending.insert (h : Ascending cmp m) (key : Brand mark β) (value : ν) :
    Ascending cmp (m.insert (onBases mark cmp) key value).2 := by
  induction m with
  | nil => exact List.pairwise_singleton _ _
  | cons first m ih =>
    obtain ⟨hfirst, hm⟩ := List.pairwise_cons.mp h
    rw [Ordered.insert, onBases]
    rcases hkey : cmp key.base first.1.base with _ | _ | _
    · have hbefore : cmp key.base first.1.base ≠ .gt := by simp [hkey]
      have hbelow := h.below hbefore
      refine List.pairwise_cons.mpr ⟨fun e he => ?_, h⟩
      rcases List.mem_cons.mp he with rfl | hin
      · exact hkey
      · exact hbelow e hin
    · exact List.pairwise_cons.mpr ⟨hfirst, hm⟩
    · refine List.pairwise_cons.mpr ⟨fun e he => ?_, ih hm⟩
      rcases key_of_mem_insert he with hnew | ⟨e', he', hsame⟩
      · rw [hnew]
        exact Std.OrientedCmp.gt_iff_lt.mp hkey
      · rw [← hsame]
        exact hfirst e' he'

/-- What was under the key, and the entries that are there now. -/
theorem insert_bare (h : Ascending cmp m) (key : Brand mark β) (value : ν) :
    (m.insert (onBases mark cmp) key value).1 =
        (Plain.find? (levelBy cmp) key.base (m.map bare)).map Prod.snd ∧
      ((m.insert (onBases mark cmp) key value).2.map bare).Perm
        (Plain.insert (levelBy cmp) key.base value (m.map bare)) := by
  have hsame := sameness_levelBy cmp
  rcases Plain.absent_or_present (levelBy cmp) key.base (m.map bare) with habsent | ⟨e, he, hkey⟩
  · have hm : ∀ e ∈ m, levelBy cmp key.base e.1.base = false := fun e he =>
      habsent (bare e) (List.mem_map_of_mem he)
    obtain ⟨hold, hperm⟩ := insert_of_absent value hm
    rw [hold, (Plain.find?_eq_none_iff _).mpr habsent, Plain.insert_of_absent habsent]
    exact ⟨rfl, (hperm.map bare).trans (List.perm_append_singleton _ _).symm⟩
  · obtain ⟨e', he', rfl⟩ := List.mem_map.mp he
    obtain ⟨hold, hnew⟩ := insert_of_present h value he' hkey
    have hfound := (Plain.find?_eq_some_iff hsame h.distinct key.base (bare e')).mpr ⟨he, hkey⟩
    rw [hold, hfound, Plain.insert_of_present he hkey, hnew]
    exact ⟨rfl, List.Perm.of_eq (map_bare_replaced _ value m)⟩

/-! ## The entries between two keys -/

theorem takeWhile_eq_filter {α : Type} {p : α → Bool} {l : List α}
    (h : l.Pairwise fun a b => p b = true → p a = true) : l.takeWhile p = l.filter p := by
  induction l with
  | nil => rfl
  | cons a l ih =>
    obtain ⟨ha, hl⟩ := List.pairwise_cons.mp h
    rw [List.takeWhile_cons, List.filter_cons]
    by_cases hp : p a = true
    · rw [if_pos hp, if_pos hp, ih hl]
    · rw [if_neg hp, if_neg hp]
      have hnone : ∀ b ∈ l, ¬ p b = true := fun b hb hpb => hp (ha b hb hpb)
      exact (List.filter_eq_nil_iff.mpr hnone).symm

theorem dropWhile_eq_filter {α : Type} {p : α → Bool} {l : List α}
    (h : l.Pairwise fun a b => p b = true → p a = true) :
    l.dropWhile p = l.filter fun a => !p a := by
  induction l with
  | nil => rfl
  | cons a l ih =>
    obtain ⟨ha, hl⟩ := List.pairwise_cons.mp h
    rw [List.dropWhile_cons, List.filter_cons]
    by_cases hp : p a = true
    · rw [if_pos hp, hp, ih hl]
      rfl
    · have hall : l.filter (fun a => !p a) = l := by
        rw [List.filter_eq_self]
        intro b hb
        have hpb : p b = false := Bool.eq_false_iff.mpr fun hpb => hp (ha b hb hpb)
        rw [hpb]
        rfl
      rw [if_neg hp, Bool.eq_false_iff.mpr hp, hall]
      rfl

theorem range_eq (h : Ascending cmp m) (lo hi : β) :
    m.range cmp lo hi =
      m.filter fun e => cmp e.1.base lo != .lt && cmp e.1.base hi != .gt := by
  have hle : ∀ o : Ordering, (o != .gt) = o.isLE := by decide
  have hlow : m.Pairwise fun a b => (cmp b.1.base lo == .lt) = true →
      (cmp a.1.base lo == .lt) = true := by
    refine List.Pairwise.imp (fun {a b} hab hb => ?_) h
    exact beq_iff_eq.mpr (Std.TransCmp.lt_trans hab (beq_iff_eq.mp hb))
  have hhigh : m.Pairwise fun a b => (cmp b.1.base hi != .gt) = true →
      (cmp a.1.base hi != .gt) = true := by
    refine List.Pairwise.imp (fun {a b} hab hb => ?_) h
    rw [hle] at *
    exact Std.TransCmp.isLE_trans (by rw [hab]; rfl) hb
  unfold Ordered.range
  rw [dropWhile_eq_filter hlow, takeWhile_eq_filter (hhigh.filter _), List.filter_filter]
  refine List.filter_congr fun e _ => ?_
  rw [Bool.and_comm]
  rfl

theorem range_bare (h : Ascending cmp m) (lo hi : β) :
    (m.range cmp lo hi).map bare =
      (m.map bare).filter fun e => cmp e.1 lo != .lt && cmp e.1 hi != .gt := by
  rw [range_eq h, List.filter_map]
  rfl

/-! ## Requests -/

variable {r : Ranking β} [Std.TransCmp r.order]

omit [Std.TransCmp cmp] in
theorem Ascending.step (h : Ascending r.order m) (q : Request mark β ν) :
    Ascending r.order (step r m q).2 := by
  cases q with
  | insert key value => exact h.insert key value
  | remove key => exact h.erase key
  | get _ | getBrand _ | keyOf _ | size | entries | first | last | range _ _ => exact h

/-- The map answers as the list of its entries under bare keys, and keeps the same entries. -/
theorem step_bare (h : Ascending r.order m) (q : Request mark β ν) :
    (step r m q).1 = (Plain.step mark (levelBy r.order) r.order (m.map bare) q).1 ∧
      ((step r m q).2.map bare).Perm
        (Plain.step mark (levelBy r.order) r.order (m.map bare) q).2 := by
  cases q with
  | insert key value =>
    obtain ⟨hold, hperm⟩ := insert_bare h key value
    exact ⟨congrArg Answer.value hold, hperm⟩
  | get key =>
    have hfound := find?_bare h key
    refine ⟨congrArg Answer.value ?_, List.Perm.refl _⟩
    rw [← hfound, Option.map_map]
    rfl
  | getBrand key =>
    have hfound := find?_bare h key.base
    refine ⟨congrArg Answer.value ?_, List.Perm.refl _⟩
    rw [← hfound, Option.map_map]
    rfl
  | remove key =>
    have hfound := find?_bare h key
    refine ⟨congrArg Answer.value ?_, List.Perm.of_eq (erase_bare h key)⟩
    rw [← hfound, Option.map_map]
    rfl
  | keyOf key =>
    have hfound := find?_bare h key
    refine ⟨congrArg Answer.entry ?_, List.Perm.refl _⟩
    rw [← hfound, Option.map_map]
    exact Option.map_id'.symm
  | size => exact ⟨congrArg Answer.size (List.length_map bare).symm, List.Perm.refl _⟩
  | entries =>
    refine ⟨congrArg Answer.entries ?_, List.Perm.refl _⟩
    rw [h.inOrder, map_branded_bare]
  | first =>
    refine ⟨congrArg Answer.entry ?_, List.Perm.refl _⟩
    rw [h.inOrder, ← List.head?_map, map_branded_bare]
  | last =>
    refine ⟨congrArg Answer.entry ?_, List.Perm.refl _⟩
    rw [h.inOrder, ← List.getLast?_map, map_branded_bare]
  | range lo hi =>
    refine ⟨congrArg Answer.entries ?_, List.Perm.refl _⟩
    rw [h.inOrder, ← range_bare h, map_branded_bare]

end NominalBrand.Keyed.Ordered
