-- What a map tells and keeps: only keys and values that were put in. This
-- needs no law of its order or of its hashing, and it holds of every property
-- that keys or values may have.
import NominalBrand.Keyed.Hashed
import NominalBrand.Keyed.Ordered

namespace NominalBrand.Keyed

variable {μ β ν : Type} {mark : μ} {K : Brand mark β → Prop} {L : ν → Prop}

/-- The key and the value of each entry have their properties. -/
def Holds (K : Brand mark β → Prop) (L : ν → Prop) (entries : List (Brand mark β × ν)) : Prop :=
  ∀ e ∈ entries, K e.1 ∧ L e.2

/-- What a request puts in has the properties. -/
def Request.Brings (K : Brand mark β → Prop) (L : ν → Prop) : Request mark β ν → Prop
  | .insert key value => K key ∧ L value
  | _ => True

/-- What an answer tells has the properties. -/
def Answer.Tells (K : Brand mark β → Prop) (L : ν → Prop) : Answer mark β ν → Prop
  | .value found => ∀ v, found = some v → L v
  | .entry found => ∀ e, found = some e → K e.1 ∧ L e.2
  | .entries found => Holds K L found
  | .size _ | .unsupported => True

theorem Holds.cons {e : Brand mark β × ν} {entries : List (Brand mark β × ν)}
    (he : K e.1 ∧ L e.2) (h : Holds K L entries) : Holds K L (e :: entries) :=
  List.forall_mem_cons.mpr ⟨he, h⟩

theorem Holds.subset {entries entries' : List (Brand mark β × ν)} (h : Holds K L entries)
    (hsub : entries' ⊆ entries) : Holds K L entries' := fun e he => h e (hsub he)

/-- A value that is looked up has its property when the entry that is found does. -/
theorem tells_value {found : Option (Brand mark β × ν)}
    (h : ∀ e, found = some e → K e.1 ∧ L e.2) :
    (Answer.value (found.map Prod.snd) : Answer mark β ν).Tells K L := by
  intro v hv
  obtain ⟨e, he, rfl⟩ := Option.map_eq_some_iff.mp hv
  exact (h e he).2

namespace Ordered

variable {m : Ordered mark β ν}

theorem holds_insert (cmp : Brand mark β → Brand mark β → Ordering) {key : Brand mark β}
    {value : ν} (hm : Holds K L m) (hkey : K key) (hvalue : L value) :
    (∀ v, (m.insert cmp key value).1 = some v → L v) ∧
      Holds K L (m.insert cmp key value).2 := by
  induction m with
  | nil => exact ⟨fun _ hv => (by cases hv), hm.cons ⟨hkey, hvalue⟩⟩
  | cons e m ih =>
    obtain ⟨he, hrest⟩ := List.forall_mem_cons.mp hm
    obtain ⟨hold, hnew⟩ := ih hrest
    rw [Ordered.insert]
    rcases cmp key e.1 with _ | _ | _
    · exact ⟨fun _ hv => (by cases hv), hm.cons ⟨hkey, hvalue⟩⟩
    · refine ⟨fun v hv => ?_, Holds.cons ⟨he.1, hvalue⟩ hrest⟩
      rw [← Option.some.inj hv]
      exact he.2
    · exact ⟨hold, Holds.cons he hnew⟩

theorem mem_of_find? {place : Brand mark β → Ordering} {e : Brand mark β × ν}
    (h : m.find? place = some e) : e ∈ m := by
  induction m with
  | nil => cases h
  | cons first m ih =>
    rw [Ordered.find?] at h
    rcases hplace : place first.1 with _ | _ | _
    · rw [hplace] at h
      cases h
    · rw [hplace] at h
      rw [← Option.some.inj h]
      exact List.mem_cons_self
    · rw [hplace] at h
      exact List.mem_cons_of_mem _ (ih h)

theorem erase_subset (place : Brand mark β → Ordering) (m : Ordered mark β ν) :
    m.erase place ⊆ m := by
  induction m with
  | nil => exact List.Subset.refl _
  | cons first m ih =>
    rw [Ordered.erase]
    rcases place first.1 with _ | _ | _
    · exact List.Subset.refl _
    · exact List.subset_cons_self _ _
    · exact List.cons_subset_cons _ ih

theorem range_subset (cmp : β → β → Ordering) (lo hi : β) (m : Ordered mark β ν) :
    m.range cmp lo hi ⊆ m :=
  List.Subset.trans (List.takeWhile_subset _) (List.dropWhile_subset _)

/-- An ordered map tells and keeps what was put in. -/
theorem holds_step (r : Ranking β) {q : Request mark β ν} (hm : Holds K L m)
    (hq : q.Brings K L) : (step r m q).1.Tells K L ∧ Holds K L (step r m q).2 := by
  have hfound : ∀ place e, m.find? place = some e → K e.1 ∧ L e.2 := fun _ e he =>
    hm e (mem_of_find? he)
  cases q with
  | insert key value => exact holds_insert _ hm hq.1 hq.2
  | get _ | getBrand _ => exact ⟨tells_value (hfound _), hm⟩
  | remove key => exact ⟨tells_value (hfound _), hm.subset (erase_subset _ m)⟩
  | keyOf _ => exact ⟨hfound _, hm⟩
  | size => exact ⟨trivial, hm⟩
  | entries => exact ⟨hm, hm⟩
  | first => exact ⟨fun e he => hm e (List.mem_of_head? he), hm⟩
  | last => exact ⟨fun e he => hm e (List.mem_of_getLast? he), hm⟩
  | range lo hi => exact ⟨hm.subset (range_subset _ lo hi m), hm⟩

end Ordered

namespace Hashed

variable {m : Hashed mark β ν} {b : List (Brand mark β × ν)}

theorem holds_put (same : Brand mark β → Bool) {key : Brand mark β} {value : ν}
    (hb : Holds K L b) (hkey : K key) (hvalue : L value) : Holds K L (put same key value b) := by
  induction b with
  | nil => exact hb.cons ⟨hkey, hvalue⟩
  | cons e b ih =>
    obtain ⟨he, hrest⟩ := List.forall_mem_cons.mp hb
    rw [put]
    split
    · exact Holds.cons ⟨he.1, hvalue⟩ hrest
    · exact Holds.cons he (ih hrest)

theorem holds_bucket (hm : Holds K L m.flatten) (d : Nat) : Holds K L (m.bucket d) := by
  unfold bucket
  rcases hb : m[d % m.length]? with _ | b
  · exact fun e he => absurd he List.not_mem_nil
  · exact fun e he => hm e (List.mem_flatten.mpr ⟨b, List.mem_of_getElem? hb, he⟩)

theorem holds_modify (hm : Holds K L m.flatten) {d : Nat}
    {f : List (Brand mark β × ν) → List (Brand mark β × ν)} (hf : Holds K L (f (m.bucket d))) :
    Holds K L (m.modify d f).flatten := by
  intro e he
  obtain ⟨b, hb, he⟩ := List.mem_flatten.mp he
  rcases List.mem_or_eq_of_mem_set hb with hin | rfl
  · exact hm e (List.mem_flatten.mpr ⟨b, hin, he⟩)
  · exact hf e he

/-- A hashed map tells and keeps what was put in. -/
theorem holds_step (bases : Hashing β) (brands : Hashing (Brand mark β)) (r : Ranking β)
    {q : Request mark β ν} (hm : Holds K L m.flatten) (hq : q.Brings K L) :
    (step bases brands r m q).1.Tells K L ∧ Holds K L (step bases brands r m q).2.flatten := by
  have hfound : ∀ same d e, find? same (m.bucket d) = some e → K e.1 ∧ L e.2 := fun _ d e he =>
    holds_bucket hm d e (List.mem_of_find?_eq_some he)
  cases q with
  | insert key value =>
    have hput := holds_put (brands.eq key) (holds_bucket hm (brands.digest key)) hq.1 hq.2
    exact ⟨tells_value (hfound _ _), holds_modify hm hput⟩
  | get _ | getBrand _ => exact ⟨tells_value (hfound _ _), hm⟩
  | remove key =>
    have hdrop : Holds K L (drop (fun k => bases.eq key k.base) (m.bucket (bases.digest key))) :=
      (holds_bucket hm _).subset List.eraseP_subset
    exact ⟨tells_value (hfound _ _), holds_modify hm hdrop⟩
  | keyOf _ => exact ⟨hfound _ _, hm⟩
  | size => exact ⟨trivial, hm⟩
  | entries => exact ⟨hm.subset (List.mergeSort_perm _ _).subset, hm⟩
  | first | last | range _ _ => exact ⟨trivial, hm⟩

end Hashed

end NominalBrand.Keyed
