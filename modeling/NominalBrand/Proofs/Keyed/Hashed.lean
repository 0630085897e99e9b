-- The laws of the hashed map. Every entry lies in the bucket that the digest
-- of its key chooses, and equal keys have equal digests, so whatever a search
-- in one bucket does not find is nowhere else.
import NominalBrand.Keyed.Hashed
import NominalBrand.Proofs.Keyed.Contents
import NominalBrand.Proofs.Keyed.Entries

namespace NominalBrand.Keyed

variable {μ β κ ν : Type} {mark : μ}

namespace Hashing

/-- Brands are reached as their bases are. -/
def onBrands (mark : μ) (H : Hashing β) : Hashing (Brand mark β) where
  eq a b := H.eq a.base b.base
  digest v := H.digest v.base

theorem through_brand (mix : List UInt8 → Nat) (c : Comparison β) (feed : HashFeed β) (mark : μ) :
    through mix (c.brand mark) (feed.brand mark) = (through mix c feed).onBrands mark := rfl

/-- Equality is an equivalence, and equal keys have equal digests. -/
structure Lawful (H : Hashing β) : Prop where
  same : Sameness H.eq
  digest : ∀ a b, H.eq a b = true → H.digest a = H.digest b

end Hashing

namespace Hashed

/-! ## One bucket -/

/-- No two entries are meant. -/
def AtMostOne (meant : κ → Bool) (b : List (κ × ν)) : Prop :=
  b.Pairwise fun x y => meant x.1 = true → meant y.1 = false

theorem atMostOne_of_distinct {same : β → β → Bool} (h : Sameness same)
    {b : List (Brand mark β × ν)} (hb : Plain.Distinct same (b.map bare)) (key : β) :
    AtMostOne (fun k : Brand mark β => same key k.base) b := by
  refine List.Pairwise.imp (fun {x y} hxy hx => ?_) (List.pairwise_map.mp hb)
  exact h.eq_false_of_differ hxy hx

variable {same : Brand mark β → Bool} {b : List (Brand mark β × ν)} {key : Brand mark β}

theorem put_of_absent (habsent : ∀ e ∈ b, same e.1 = false) (value : ν) :
    put same key value b = b ++ [(key, value)] := by
  induction b with
  | nil => rfl
  | cons e b ih =>
    have hhead : same e.1 = false := habsent e List.mem_cons_self
    have hrest := ih fun e' he' => habsent e' (List.mem_cons_of_mem _ he')
    rw [put, hhead, if_neg Bool.false_ne_true, hrest, List.cons_append]

theorem put_of_present (hone : AtMostOne same b) {e : Brand mark β × ν} (he : e ∈ b)
    (hsame : same e.1 = true) (value : ν) : put same key value b = replaced same value b := by
  induction b with
  | nil => simp at he
  | cons first b ih =>
    obtain ⟨hlater, hb⟩ := List.pairwise_cons.mp hone
    rw [put, replaced, List.map_cons]
    by_cases hfirst : same first.1 = true
    · have hrest := replaced_of_absent (fun e' he' => hlater e' he' hfirst) value
      rw [if_pos hfirst, if_pos hfirst]
      exact congrArg ((first.1, value) :: ·) hrest.symm
    · have hin : e ∈ b := by
        rcases List.mem_cons.mp he with rfl | hin
        · exact absurd hsame hfirst
        · exact hin
      rw [if_neg hfirst, if_neg hfirst]
      exact congrArg (first :: ·) (ih hb hin)

theorem drop_eq (hone : AtMostOne same b) : drop same b = b.filter fun e => !same e.1 := by
  unfold drop
  induction b with
  | nil => rfl
  | cons first b ih =>
    obtain ⟨hlater, hb⟩ := List.pairwise_cons.mp hone
    rw [List.eraseP_cons, List.filter_cons]
    cases hfirst : same first.1 with
    | true =>
      have hrest : b.filter (fun e => !same e.1) = b := by
        rw [List.filter_eq_self]
        intro e he
        rw [hlater e he hfirst]
        rfl
      exact hrest.symm
    | false => exact congrArg (first :: ·) (ih hb)

theorem key_of_mem_put {value : ν} {e : Brand mark β × ν} (he : e ∈ put same key value b) :
    e.1 = key ∨ ∃ e' ∈ b, e'.1 = e.1 := by
  have hb : Holds (fun k => k = key ∨ ∃ e' ∈ b, e'.1 = k) (fun _ : ν => True) b :=
    fun e' he' => ⟨Or.inr ⟨e', he', rfl⟩, trivial⟩
  exact (holds_put same hb (Or.inl rfl) trivial e he).1

/-! ## All buckets -/

variable {H : Hashing β} {m : Hashed mark β ν}

/-- Each entry lies in the bucket of its key, and no two keys are equal. -/
structure Placed (H : Hashing β) (m : Hashed mark β ν) : Prop where
  buckets : 0 < m.length
  place : ∀ i b, m[i]? = some b → ∀ e ∈ b, H.digest e.1.base % m.length = i
  distinct : Plain.Distinct H.eq (m.flatten.map bare)

theorem placed_empty (H : Hashing β) (n : Nat) : Placed H (empty (n + 1) : Hashed mark β ν) where
  buckets := by simp [empty]
  place i b hb e he := by
    have hnone : b = [] := List.eq_of_mem_replicate (List.mem_of_getElem? hb)
    rw [hnone] at he
    exact absurd he List.not_mem_nil
  distinct := by
    have hnone : (empty (n + 1) : Hashed mark β ν).flatten = [] := List.flatten_replicate_nil
    rw [hnone]
    exact List.Pairwise.nil

/-- The bucket of a digest, between the buckets before it and those after it. -/
theorem Placed.split (h : Placed H m) (d : Nat) :
    ∃ before after, m = before ++ m.bucket d :: after ∧ before.length = d % m.length := by
  have hlt : d % m.length < m.length := Nat.mod_lt d h.buckets
  refine ⟨m.take (d % m.length), List.drop (d % m.length + 1) m, ?_, ?_⟩
  · have hbucket : m.bucket d = m[d % m.length] := by
      unfold bucket
      rw [List.getElem?_eq_getElem hlt, Option.getD_some]
    rw [hbucket, List.getElem_cons_drop, List.take_append_drop]
  · rw [List.length_take, Nat.min_eq_left (Nat.le_of_lt hlt)]

theorem modify_eq {before after : List (List (Brand mark β × ν))} {d : Nat}
    (hm : m = before ++ m.bucket d :: after) (hlength : before.length = d % m.length)
    (f : List (Brand mark β × ν) → List (Brand mark β × ν)) :
    m.modify d f = before ++ f (m.bucket d) :: after := by
  unfold modify
  rw [← hlength]
  generalize m.bucket d = b at *
  subst hm
  rw [List.set_append_right _ _ (Nat.le_refl _), Nat.sub_self, List.set_cons_zero]

/-- The entries of the bucket of a key stand between others, none of which is under the key. -/
theorem Placed.around (hH : H.Lawful) (h : Placed H m) (key : β) :
    ∃ before after, m.flatten = before ++ (m.bucket (H.digest key) ++ after) ∧
      (∀ f, (m.modify (H.digest key) f).flatten =
        before ++ (f (m.bucket (H.digest key)) ++ after)) ∧
      (∀ e ∈ before, H.eq key e.1.base = false) ∧ ∀ e ∈ after, H.eq key e.1.base = false := by
  obtain ⟨before, after, hm, hlength⟩ := h.split (H.digest key)
  have helsewhere : ∀ i b, m[i]? = some b → i ≠ before.length →
      ∀ e ∈ b, H.eq key e.1.base = false := by
    intro i b hb hi e he
    -- An equal key has the same digest, so its entry lies in the bucket of the key.
    refine Bool.eq_false_iff.mpr fun heq => hi ?_
    rw [hlength, hH.digest _ _ heq]
    exact (h.place i b hb e he).symm
  refine ⟨before.flatten, after.flatten, ?_, fun f => ?_, fun e he => ?_, fun e he => ?_⟩
  · rw [← List.flatten_cons, ← List.flatten_append, ← hm]
  · rw [modify_eq hm hlength, List.flatten_append, List.flatten_cons]
  · obtain ⟨b, hb, he⟩ := List.mem_flatten.mp he
    obtain ⟨i, hi, hget⟩ := List.mem_iff_getElem.mp hb
    refine helsewhere i b ?_ (Nat.ne_of_lt hi) e he
    rw [hm, List.getElem?_append_left hi, List.getElem?_eq_getElem hi, hget]
  · obtain ⟨b, hb, he⟩ := List.mem_flatten.mp he
    obtain ⟨i, hi, hget⟩ := List.mem_iff_getElem.mp hb
    refine helsewhere (before.length + (i + 1)) b ?_ (by omega) e he
    rw [hm, List.getElem?_append_right (by omega), Nat.add_sub_cancel_left,
      List.getElem?_cons_succ, List.getElem?_eq_getElem hi, hget]

/-! ## Looking up, putting in and taking out -/

theorem find?_bucket (hH : H.Lawful) (h : Placed H m) (key : β) :
    find? (fun k => H.eq key k.base) (m.bucket (H.digest key)) =
      List.find? (fun e => H.eq key e.1.base) m.flatten := by
  obtain ⟨before, after, hflatten, _, hbefore, hafter⟩ := h.around hH key
  have hno : ∀ l : List (Brand mark β × ν), (∀ e ∈ l, H.eq key e.1.base = false) →
      List.find? (fun e => H.eq key e.1.base) l = none := by
    intro l hl
    rw [List.find?_eq_none]
    intro e he
    rw [hl e he]
    exact Bool.false_ne_true
  rw [hflatten, List.find?_append, List.find?_append, hno _ hbefore, hno _ hafter,
    Option.none_or, Option.or_none]
  rfl

theorem find?_bare (hH : H.Lawful) (h : Placed H m) (key : β) :
    (find? (fun k => H.eq key k.base) (m.bucket (H.digest key))).map bare =
      Plain.find? H.eq key (m.flatten.map bare) := by
  rw [find?_bucket hH h]
  unfold Plain.find?
  rw [List.find?_map]
  rfl

theorem atMostOne_bucket (hH : H.Lawful) (h : Placed H m) (key : β) :
    AtMostOne (fun k => H.eq key k.base) (m.bucket (H.digest key)) := by
  obtain ⟨before, after, hflatten, _⟩ := h.around hH key
  have hall := atMostOne_of_distinct hH.same h.distinct key
  unfold AtMostOne at hall
  rw [hflatten] at hall
  exact (List.pairwise_append.mp (List.pairwise_append.mp hall).2.1).1

theorem put_bare (hH : H.Lawful) (h : Placed H m) (key : Brand mark β) (value : ν) :
    ((m.modify (H.digest key.base)
        (put (fun k => H.eq key.base k.base) key value)).flatten.map bare).Perm
      (Plain.insert H.eq key.base value (m.flatten.map bare)) := by
  have hone := atMostOne_bucket hH h key.base
  obtain ⟨before, after, hflatten, hmodify, hbefore, hafter⟩ := h.around hH key.base
  rw [hmodify, hflatten]
  generalize m.bucket (H.digest key.base) = b at *
  rcases Plain.absent_or_present H.eq key.base (b.map bare) with habsent | ⟨e, he, hkey⟩
  · have hb : ∀ e ∈ b, H.eq key.base e.1.base = false := fun e he =>
      habsent (bare e) (List.mem_map_of_mem he)
    have hall : ∀ e ∈ (before ++ (b ++ after)).map bare, H.eq key.base e.1 = false := by
      intro e he
      obtain ⟨e', he', rfl⟩ := List.mem_map.mp he
      rcases List.mem_append.mp he' with hin | hin
      · exact hbefore e' hin
      · rcases List.mem_append.mp hin with hin | hin
        · exact hb e' hin
        · exact hafter e' hin
    -- The new entry ends its bucket, while the list has it after the entries of all buckets.
    have hmoved : (before ++ (b ++ [(key, value)] ++ after)).Perm
        (before ++ (b ++ after) ++ [(key, value)]) := by
      rw [List.append_assoc before, List.append_assoc b, List.append_assoc b]
      exact (List.perm_append_comm.append_left b).append_left before
    rw [put_of_absent hb, Plain.insert_of_absent hall]
    exact (hmoved.map bare).trans (List.Perm.of_eq List.map_append)
  · obtain ⟨e', he', rfl⟩ := List.mem_map.mp he
    have hin : bare e' ∈ (before ++ (b ++ after)).map bare :=
      List.mem_map_of_mem (List.mem_append_right _ (List.mem_append_left _ he'))
    have hreplaced : before ++ (replaced (fun k => H.eq key.base k.base) value b ++ after) =
        replaced (fun k => H.eq key.base k.base) value (before ++ (b ++ after)) := by
      have hfirst : replaced (fun k : Brand mark β => H.eq key.base k.base) value before = before :=
        replaced_of_absent hbefore value
      have hlast : replaced (fun k : Brand mark β => H.eq key.base k.base) value after = after :=
        replaced_of_absent hafter value
      rw [replaced_append, replaced_append, hfirst, hlast]
    rw [put_of_present hone he' hkey, Plain.insert_of_present hin hkey, hreplaced]
    exact List.Perm.of_eq (map_bare_replaced _ value _)

theorem drop_bare (hH : H.Lawful) (h : Placed H m) (key : β) :
    (m.modify (H.digest key) (drop fun k => H.eq key k.base)).flatten.map bare =
      Plain.erase H.eq key (m.flatten.map bare) := by
  have hone := atMostOne_bucket hH h key
  obtain ⟨before, after, hflatten, hmodify, hbefore, hafter⟩ := h.around hH key
  have hstay : ∀ l : List (Brand mark β × ν), (∀ e ∈ l, H.eq key e.1.base = false) →
      l.filter (fun e => !H.eq key e.1.base) = l := by
    intro l hl
    rw [List.filter_eq_self]
    intro e he
    rw [hl e he]
    rfl
  unfold Plain.erase
  rw [hmodify, drop_eq hone, hflatten, List.filter_map]
  refine congrArg (List.map bare) ?_
  change _ = List.filter (fun e : Brand mark β × ν => !H.eq key e.1.base) _
  rw [List.filter_append, List.filter_append, hstay _ hbefore, hstay _ hafter]

/-! ## Entries stay in their buckets -/

theorem Placed.modify (h : Placed H m) {d : Nat}
    {f : List (Brand mark β × ν) → List (Brand mark β × ν)}
    (hkeys : ∀ e ∈ f (m.bucket d), H.digest e.1.base % m.length = d % m.length)
    (hdistinct : Plain.Distinct H.eq ((m.modify d f).flatten.map bare)) :
    Placed H (m.modify d f) where
  buckets := by
    unfold Hashed.modify
    rw [List.length_set]
    exact h.buckets
  place i b hb e he := by
    unfold Hashed.modify at hb ⊢
    rw [List.length_set]
    rw [List.getElem?_set] at hb
    split at hb
    · rename_i hi
      split at hb
      · rw [← hi]
        exact hkeys e (Option.some.inj hb ▸ he)
      · contradiction
    · exact h.place i b hb e he
  distinct := hdistinct

theorem Placed.of_mem_bucket (h : Placed H m) {d : Nat} {e : Brand mark β × ν}
    (he : e ∈ m.bucket d) : H.digest e.1.base % m.length = d % m.length := by
  unfold bucket at he
  rcases hb : m[d % m.length]? with _ | b
  · rw [hb] at he
    exact absurd he List.not_mem_nil
  · rw [hb] at he
    exact h.place _ b hb e he

theorem Placed.put (hH : H.Lawful) (h : Placed H m) (key : Brand mark β) (value : ν) :
    Placed H (m.modify (H.digest key.base) (put (fun k => H.eq key.base k.base) key value)) := by
  refine h.modify (fun e he => ?_) ?_
  · rcases key_of_mem_put he with hnew | ⟨e', he', hkey⟩
    · rw [hnew]
    · rw [← hkey]
      exact h.of_mem_bucket he'
  · exact (h.distinct.insert hH.same key.base value).perm hH.same (put_bare hH h key value).symm

theorem Placed.drop (hH : H.Lawful) (h : Placed H m) (key : β) :
    Placed H (m.modify (H.digest key) (drop fun k => H.eq key k.base)) := by
  refine h.modify (fun e he => ?_) ?_
  · exact h.of_mem_bucket (List.mem_of_mem_eraseP he)
  · rw [drop_bare hH h]
    exact h.distinct.erase key

/-! ## Requests -/

variable {r : Ranking β}

theorem Placed.step (hH : H.Lawful) (h : Placed H m) (q : Request mark β ν) :
    Placed H (step H (H.onBrands mark) r m q).2 := by
  cases q with
  | insert key value => exact h.put hH key value
  | remove key => exact h.drop hH key
  | get _ | getBrand _ | keyOf _ | size | entries | first | last | range _ _ => exact h

theorem entries_eq (m : Hashed mark β ν) :
    m.entries r = (Plain.inOrder r.order (m.flatten.map bare)).map (Plain.branded mark) := by
  have hsorted : (m.entries r).map bare = Plain.inOrder r.order (m.flatten.map bare) :=
    List.map_mergeSort fun _ _ _ _ => rfl
  rw [← hsorted, map_branded_bare]

/-- The map answers as the list of its entries under bare keys, and keeps the same entries. -/
theorem step_bare (hH : H.Lawful) (h : Placed H m) {q : Request mark β ν} (hq : q.Unordered) :
    (step H (H.onBrands mark) r m q).1 =
        (Plain.step mark H.eq r.order (m.flatten.map bare) q).1 ∧
      ((step H (H.onBrands mark) r m q).2.flatten.map bare).Perm
        (Plain.step mark H.eq r.order (m.flatten.map bare) q).2 := by
  have hvalue : ∀ key, (find? (fun k => H.eq key k.base) (m.bucket (H.digest key))).map Prod.snd =
      (Plain.find? H.eq key (m.flatten.map bare)).map Prod.snd := by
    intro key
    rw [← find?_bare hH h, Option.map_map]
    rfl
  cases q with
  | insert key value =>
    exact ⟨congrArg Answer.value (hvalue key.base), put_bare hH h key value⟩
  | get key => exact ⟨congrArg Answer.value (hvalue key), List.Perm.refl _⟩
  | getBrand key => exact ⟨congrArg Answer.value (hvalue key.base), List.Perm.refl _⟩
  | remove key =>
    exact ⟨congrArg Answer.value (hvalue key), List.Perm.of_eq (drop_bare hH h key)⟩
  | keyOf key =>
    refine ⟨congrArg Answer.entry ?_, List.Perm.refl _⟩
    rw [← find?_bare hH h, Option.map_map]
    exact Option.map_id'.symm
  | size => exact ⟨congrArg Answer.size (List.length_map bare).symm, List.Perm.refl _⟩
  | entries => exact ⟨congrArg Answer.entries (entries_eq m), List.Perm.refl _⟩
  | first | last | range _ _ => exact hq.elim

end Hashed

end NominalBrand.Keyed
