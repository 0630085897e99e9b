-- The laws of one list of entries under bare keys. Equal keys may still look
-- different, so a list of entries says which of two equal keys is kept; what
-- it never says is the order of the entries. All operations give the same for
-- two lists with the same entries, as long as no two keys are equal.
import NominalBrand.Keyed.Plain

namespace NominalBrand.Keyed

variable {β ν μ : Type}

/-! ## Bare keys -/

/-- An entry under a branded key, told under the bare one. -/
def bare {mark : μ} (e : Brand mark β × ν) : β × ν := (e.1.base, e.2)

theorem map_branded_bare {mark : μ} (entries : List (Brand mark β × ν)) :
    (entries.map bare).map (Plain.branded mark) = entries := by
  rw [List.map_map]
  exact List.map_id entries

/-- The entries once the value under the key that is meant is replaced; every key stays. -/
def replaced {κ : Type} (meant : κ → Bool) (value : ν) (entries : List (κ × ν)) : List (κ × ν) :=
  entries.map fun e => if meant e.1 then (e.1, value) else e

theorem key_replaced {κ : Type} (meant : κ → Bool) (value : ν) (e : κ × ν) :
    (if meant e.1 then (e.1, value) else e).1 = e.1 := by
  split <;> rfl

theorem replaced_of_absent {κ : Type} {meant : κ → Bool} {entries : List (κ × ν)}
    (habsent : ∀ e ∈ entries, meant e.1 = false) (value : ν) :
    replaced meant value entries = entries := by
  refine (List.map_congr_left fun e he => ?_).trans (List.map_id entries)
  rw [habsent e he]
  rfl

theorem replaced_append {κ : Type} (meant : κ → Bool) (value : ν) (first rest : List (κ × ν)) :
    replaced meant value (first ++ rest) =
      replaced meant value first ++ replaced meant value rest := List.map_append

theorem map_bare_replaced {mark : μ} (meant : β → Bool) (value : ν)
    (entries : List (Brand mark β × ν)) :
    (replaced (fun k => meant k.base) value entries).map bare =
      replaced meant value (entries.map bare) := by
  unfold replaced
  rw [List.map_map, List.map_map]
  refine List.map_congr_left fun e _ => ?_
  simp only [Function.comp_apply]
  by_cases hmeant : meant e.1.base = true
  · rw [if_pos hmeant]
    exact (if_pos hmeant).symm
  · rw [if_neg hmeant]
    exact (if_neg hmeant).symm

/-! ## Equality of keys -/

/-- Equality of keys is an equivalence. -/
structure Sameness (same : β → β → Bool) : Prop where
  refl : ∀ a, same a a = true
  symm : ∀ {a b}, same a b = true → same b a = true
  trans : ∀ {a b c}, same a b = true → same b c = true → same a c = true

namespace Sameness

variable {same : β → β → Bool}

theorem comm (h : Sameness same) (a b : β) : same a b = same b a :=
  Bool.eq_iff_iff.mpr ⟨h.symm, h.symm⟩

theorem congr_left (h : Sameness same) {a b : β} (hab : same a b = true) (c : β) :
    same a c = same b c :=
  Bool.eq_iff_iff.mpr ⟨h.trans (h.symm hab), h.trans hab⟩

/-- A key cannot be equal to two keys that differ. -/
theorem eq_false_of_differ (h : Sameness same) {key a b : β} (hab : same a b = false)
    (ha : same key a = true) : same key b = false := by
  rw [h.congr_left ha b]
  exact hab

end Sameness

/-- Keys are level in an order. -/
def levelBy (cmp : β → β → Ordering) (a b : β) : Bool := cmp a b == .eq

theorem sameness_levelBy (cmp : β → β → Ordering) [Std.TransCmp cmp] :
    Sameness (levelBy cmp) where
  refl _ := beq_iff_eq.mpr Std.ReflCmp.compare_self
  symm h := beq_iff_eq.mpr (Std.OrientedCmp.eq_comm.mp (beq_iff_eq.mp h))
  trans h h' := beq_iff_eq.mpr (Std.TransCmp.eq_trans (beq_iff_eq.mp h) (beq_iff_eq.mp h'))

namespace Plain

/-! ## Keys that differ pairwise -/

/-- No two keys are equal. -/
def Distinct (same : β → β → Bool) (m : Plain β ν) : Prop :=
  m.Pairwise fun a b => same a.1 b.1 = false

variable {same : β → β → Bool} {m m' : Plain β ν}

theorem Distinct.perm (h : Sameness same) (hm : Distinct same m) (hp : m.Perm m') :
    Distinct same m' := by
  refine List.Pairwise.perm hm hp fun {x y} hxy => ?_
  rw [h.comm]
  exact hxy

theorem Distinct.eq_of_same (h : Sameness same) (hm : Distinct same m) {a b : β × ν} (ha : a ∈ m)
    (hb : b ∈ m) (hab : same a.1 b.1 = true) : a = b := by
  induction m with
  | nil => simp at ha
  | cons e m ih =>
    obtain ⟨he, hm⟩ := List.pairwise_cons.mp hm
    rcases List.mem_cons.mp ha with rfl | ha'
    · rcases List.mem_cons.mp hb with rfl | hb'
      · rfl
      · rw [he b hb'] at hab
        contradiction
    · rcases List.mem_cons.mp hb with rfl | hb'
      · rw [h.comm, he a ha'] at hab
        contradiction
      · exact ih hm ha' hb'

theorem same_of_find? {key : β} {e : β × ν} (hfound : m.find? same key = some e) :
    same key e.1 = true := by
  have hholds := List.find?_some hfound
  exact hholds

/-- The entry under a key is the only one that is there. -/
theorem find?_eq_some_iff (h : Sameness same) (hm : Distinct same m) (key : β) (e : β × ν) :
    m.find? same key = some e ↔ e ∈ m ∧ same key e.1 = true := by
  constructor
  · intro hfound
    exact ⟨List.mem_of_find?_eq_some hfound, same_of_find? hfound⟩
  · rintro ⟨he, hkey⟩
    rcases hfound : m.find? same key with _ | e'
    · exact absurd hkey (List.find?_eq_none.mp hfound e he)
    · have hkey' := same_of_find? hfound
      have hmem := List.mem_of_find?_eq_some hfound
      rw [hm.eq_of_same h hmem he (h.trans (h.symm hkey') hkey)]

theorem find?_eq_none_iff (key : β) :
    m.find? same key = none ↔ ∀ e ∈ m, same key e.1 = false := by
  unfold Plain.find?
  rw [List.find?_eq_none]
  simp only [Bool.not_eq_true]

theorem find?_perm (h : Sameness same) (hm : Distinct same m) (hp : m.Perm m') (key : β) :
    m.find? same key = m'.find? same key := by
  apply Option.ext
  intro e
  rw [find?_eq_some_iff h hm, find?_eq_some_iff h (hm.perm h hp), hp.mem_iff]

/-! ## Putting entries in and taking them out -/

theorem insert_of_absent {key : β} (habsent : ∀ e ∈ m, same key e.1 = false) (value : ν) :
    m.insert same key value = m ++ [(key, value)] := by
  unfold Plain.insert
  rw [(find?_eq_none_iff key).mpr habsent]

theorem insert_of_present {key : β} {e : β × ν} (he : e ∈ m) (hkey : same key e.1 = true)
    (value : ν) : m.insert same key value = replaced (same key) value m := by
  unfold Plain.insert
  rcases hfound : m.find? same key with _ | e'
  · have habsent := (find?_eq_none_iff key).mp hfound e he
    rw [hkey] at habsent
    contradiction
  · rfl

/-- Either no entry is under a key, or one is. -/
theorem absent_or_present (same : β → β → Bool) (key : β) (m : Plain β ν) :
    (∀ e ∈ m, same key e.1 = false) ∨ ∃ e ∈ m, same key e.1 = true := by
  rcases hfound : m.find? same key with _ | e
  · exact Or.inl ((find?_eq_none_iff key).mp hfound)
  · exact Or.inr ⟨e, List.mem_of_find?_eq_some hfound, same_of_find? hfound⟩

theorem insert_perm (hp : m.Perm m') (key : β) (value : ν) :
    (m.insert same key value).Perm (m'.insert same key value) := by
  rcases absent_or_present same key m with habsent | ⟨e, he, hkey⟩
  · rw [insert_of_absent habsent, insert_of_absent fun e he => habsent e (hp.mem_iff.mpr he)]
    exact hp.append_right _
  · rw [insert_of_present he hkey, insert_of_present (hp.mem_iff.mp he) hkey]
    exact hp.map _

theorem erase_perm (hp : m.Perm m') (key : β) : (m.erase same key).Perm (m'.erase same key) :=
  hp.filter _

theorem Distinct.insert (h : Sameness same) (hm : Distinct same m) (key : β) (value : ν) :
    Distinct same (m.insert same key value) := by
  rcases absent_or_present same key m with habsent | ⟨e, he, hkey⟩
  · rw [insert_of_absent habsent]
    refine List.pairwise_append.mpr ⟨hm, List.pairwise_singleton _ _, fun e he e' he' => ?_⟩
    rw [List.mem_singleton.mp he', h.comm]
    exact habsent e he
  · rw [insert_of_present he hkey]
    refine List.pairwise_map.mpr (List.Pairwise.imp (fun {a b} hab => ?_) hm)
    rw [key_replaced, key_replaced]
    exact hab

theorem Distinct.erase (hm : Distinct same m) (key : β) : Distinct same (m.erase same key) :=
  List.Pairwise.filter _ hm

/-! ## Entries in the order of their keys -/

theorem inOrder_perm (cmp : β → β → Ordering) (m : Plain β ν) : (m.inOrder cmp).Perm m :=
  List.mergeSort_perm m _

variable {cmp : β → β → Ordering}

/-- Entries whose keys ascend are in order already. -/
theorem inOrder_of_ascending (hm : m.Pairwise fun a b => cmp a.1 b.1 = .lt) :
    m.inOrder cmp = m := by
  refine List.mergeSort_of_pairwise (List.Pairwise.imp (fun {a b} hab => ?_) hm)
  simp only [Sorting.inOrder, hab]
  rfl

theorem inOrder_pairwise [Std.TransCmp cmp] (m : Plain β ν) :
    (m.inOrder cmp).Pairwise fun a b => (cmp a.1 b.1 != .gt) = true := by
  exact List.pairwise_mergeSort (fun a b c => Sorting.inOrder_trans a.1 b.1 c.1)
    (fun a b => Sorting.inOrder_total a.1 b.1) m

/-- Two lists with the same entries come into the same order when no two keys are level. -/
theorem inOrder_eq_of_perm [Std.TransCmp cmp] (hm : Distinct (levelBy cmp) m)
    (hp : m.Perm m') : m.inOrder cmp = m'.inOrder cmp := by
  have hsame := sameness_levelBy cmp
  have hmm : (m.inOrder cmp).Perm m := inOrder_perm cmp m
  have hperm : (m.inOrder cmp).Perm (m'.inOrder cmp) :=
    hmm.trans (hp.trans (inOrder_perm cmp m').symm)
  refine List.Perm.eq_of_pairwise (fun a b ha hb hab hba => ?_) (inOrder_pairwise m)
    (inOrder_pairwise m') hperm
  -- Neither key may stand after the other, so they are level, and then one entry has both.
  have hlevel : cmp a.1 b.1 = .eq :=
    Sorting.eq_of_not_gt ((Sorting.inOrder_iff a.1 b.1).mp hab)
      ((Sorting.inOrder_iff b.1 a.1).mp hba)
  exact hm.eq_of_same hsame (hmm.mem_iff.mp ha) (hmm.mem_iff.mp (hperm.mem_iff.mpr hb))
    (beq_iff_eq.mpr hlevel)

/-! ## Requests -/

theorem step_perm (same : β → β → Bool) (cmp : β → β → Ordering) (mark : μ) (hp : m.Perm m')
    (q : Request mark β ν) :
    (Plain.step mark same cmp m q).2.Perm (Plain.step mark same cmp m' q).2 := by
  cases q with
  | insert key value => exact insert_perm hp key.base value
  | remove key => exact erase_perm hp key
  | get _ | getBrand _ | keyOf _ | size | entries | first | last | range _ _ => exact hp

theorem Distinct.step (h : Sameness same) (hm : Distinct same m) (mark : μ)
    (q : Request mark β ν) : Distinct same (Plain.step mark same cmp m q).2 := by
  cases q with
  | insert key value => exact hm.insert h key.base value
  | remove key => exact hm.erase key
  | get _ | getBrand _ | keyOf _ | size | entries | first | last | range _ _ => exact hm

theorem answer_perm [Std.TransCmp cmp] (hm : Distinct (levelBy cmp) m) (hp : m.Perm m')
    (mark : μ) (q : Request mark β ν) :
    (Plain.step mark (levelBy cmp) cmp m q).1 = (Plain.step mark (levelBy cmp) cmp m' q).1 := by
  have hfind := find?_perm (sameness_levelBy cmp) hm hp
  have hsorted := inOrder_eq_of_perm hm hp
  cases q with
  | insert _ _ | remove _ | get _ | getBrand _ | keyOf _ => simp only [Plain.step, hfind]
  | size => exact congrArg Answer.size hp.length_eq
  | entries | first | last | range _ _ => simp only [Plain.step, hsorted]

end Plain

/-! ## Entries in no order -/

/-- The same answer, where entries may be told in any order. -/
def Answer.SameEntries {mark : μ} : Answer mark β ν → Answer mark β ν → Prop
  | .entries found, .entries found' => found.Perm found'
  | answer, answer' => answer = answer'

/-- A request that needs no order of the keys. -/
def Request.Unordered {mark : μ} : Request mark β ν → Prop
  | .first | .last | .range _ _ => False
  | _ => True

theorem Plain.answer_sameEntries {same : β → β → Bool} {m m' : Plain β ν} (h : Sameness same)
    (hm : Plain.Distinct same m) (hp : m.Perm m') (cmp : β → β → Ordering) (mark : μ)
    {q : Request mark β ν} (hq : q.Unordered) :
    (Plain.step mark same cmp m q).1.SameEntries (Plain.step mark same cmp m' q).1 := by
  have hfind := Plain.find?_perm h hm hp
  cases q with
  | insert _ _ | remove _ | get _ | getBrand _ | keyOf _ => simp only [Plain.step, hfind]; rfl
  | size => exact congrArg Answer.size hp.length_eq
  | entries =>
    have hinOrder : (m.inOrder cmp).Perm (m'.inOrder cmp) :=
      (Plain.inOrder_perm cmp m).trans (hp.trans (Plain.inOrder_perm cmp m').symm)
    exact hinOrder.map _
  | first | last | range _ _ => exact hq.elim

end NominalBrand.Keyed
