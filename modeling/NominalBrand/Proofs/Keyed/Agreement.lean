-- Maps with branded keys answer as one list of entries under bare keys does.
-- Both maps are followed beside the list, request by request: the entries of
-- the map are those of the list, in another order. What the order of a list
-- of entries cannot tell, no answer tells.
import Mathlib.Data.List.Forall2
import NominalBrand.Base.Caseless
import NominalBrand.Proofs.Keyed.Hashed
import NominalBrand.Proofs.Keyed.Ordered

namespace NominalBrand.Keyed

variable {μ β ν : Type} {mark : μ}

/-! ## Runs -/

section
variable {M M' R A A' : Type} (step : M → R → A × M) (step' : M' → R → A' × M')

/-- What one step keeps of two maps that are asked the same, a run keeps. -/
theorem run_related {asked : R → Prop} {together : M → M' → Prop} {alike : A → A' → Prop}
    (hstep : ∀ m m' q, asked q → together m m' →
      alike (step m q).1 (step' m' q).1 ∧ together (step m q).2 (step' m' q).2)
    {m : M} {m' : M'} (hm : together m m') {requests : List R}
    (hasked : ∀ q ∈ requests, asked q) :
    List.Forall₂ alike (run step m requests).1 (run step' m' requests).1 ∧
      together (run step m requests).2 (run step' m' requests).2 := by
  induction requests generalizing m m' with
  | nil => exact ⟨List.Forall₂.nil, hm⟩
  | cons q requests ih =>
    obtain ⟨hanswer, hnext⟩ := hstep m m' q (hasked q List.mem_cons_self) hm
    obtain ⟨hanswers, hend⟩ := ih hnext fun q' hq' => hasked q' (List.mem_cons_of_mem _ hq')
    exact ⟨List.Forall₂.cons hanswer hanswers, hend⟩

/-- What holds of the answer of every step that starts well holds of every answer of a run. -/
theorem run_answers {good : M → Prop} {fine : A → Prop}
    (hstep : ∀ m q, good m → fine (step m q).1 ∧ good (step m q).2)
    {m : M} (hm : good m) (requests : List R) : ∀ a ∈ (run step m requests).1, fine a := by
  induction requests generalizing m with
  | nil =>
    intro a ha
    exact absurd ha List.not_mem_nil
  | cons q requests ih =>
    obtain ⟨hanswer, hnext⟩ := hstep m q hm
    intro a ha
    rcases List.mem_cons.mp ha with rfl | ha
    · exact hanswer
    · exact ih hnext a ha

end

/-! ## Keys that are told together -/

/-- No two keys that an answer tells are equal. -/
def Answer.KeysDiffer (same : β → β → Bool) : Answer mark β ν → Prop
  | .entries found => Plain.Distinct same (found.map bare)
  | .value _ | .entry _ | .size _ | .unsupported => True

theorem Answer.SameEntries.keysDiffer {same : β → β → Bool} (h : Sameness same)
    {a a' : Answer mark β ν} (haa : a.SameEntries a') (ha' : a'.KeysDiffer same) :
    a.KeysDiffer same := by
  cases a with
  | entries found =>
    cases a' with
    | entries found' =>
      have hperm : found.Perm found' := haa
      exact Plain.Distinct.perm h ha' (hperm.map bare).symm
    | value _ | entry _ | size _ | unsupported => cases haa
  | value _ | entry _ | size _ | unsupported => trivial

namespace Plain

variable {same : β → β → Bool} {cmp : β → β → Ordering} {m : Plain β ν}

theorem map_bare_branded (m : Plain β ν) : (m.map (branded mark)).map bare = m := by
  rw [List.map_map]
  exact List.map_id m

theorem Distinct.answer (h : Sameness same) (hm : Distinct same m) (q : Request mark β ν) :
    (Plain.step mark same cmp m q).1.KeysDiffer same := by
  have hsorted : Distinct same (m.inOrder cmp) := hm.perm h (inOrder_perm cmp m).symm
  cases q with
  | entries =>
    change Distinct same (((m.inOrder cmp).map (branded mark)).map bare)
    rw [map_bare_branded]
    exact hsorted
  | range lo hi =>
    change Distinct same ((((m.inOrder cmp).filter _).map (branded mark)).map bare)
    rw [map_bare_branded]
    exact List.Pairwise.filter _ hsorted
  | insert _ _ | get _ | getBrand _ | remove _ | keyOf _ | size | first | last => trivial

end Plain

/-! ## One step of a map beside the list -/

/-- An ordered map whose entries are those of a list. -/
structure Ordered.Follows (cmp : β → β → Ordering) (m : Ordered mark β ν) (l : Plain β ν) :
    Prop where
  ascending : Ascending cmp m
  entries : (m.map bare).Perm l

theorem Ordered.Follows.step {r : Ranking β} [Std.TransCmp r.order] {m : Ordered mark β ν}
    {l : Plain β ν} (h : Follows r.order m l) (q : Request mark β ν) :
    (Ordered.step r m q).1 = (Plain.step mark (levelBy r.order) r.order l q).1 ∧
      Follows r.order (Ordered.step r m q).2
        (Plain.step mark (levelBy r.order) r.order l q).2 := by
  obtain ⟨hanswer, hentries⟩ := Ordered.step_bare h.ascending q
  have hlist := Plain.answer_perm h.ascending.distinct h.entries mark q
  have hnext := Plain.step_perm (levelBy r.order) r.order mark h.entries q
  exact ⟨hanswer.trans hlist, h.ascending.step q, hentries.trans hnext⟩

/-- A hashed map whose entries are those of a list. -/
structure Hashed.Follows (H : Hashing β) (m : Hashed mark β ν) (l : Plain β ν) : Prop where
  placed : Placed H m
  entries : (m.flatten.map bare).Perm l

namespace Hashed.Follows

variable {H : Hashing β} {r : Ranking β} {m : Hashed mark β ν} {l : Plain β ν}

theorem next (hH : H.Lawful) (h : Follows H m l) {q : Request mark β ν} (hq : q.Unordered) :
    Follows H (Hashed.step H (H.onBrands mark) r m q).2 (Plain.step mark H.eq r.order l q).2 where
  placed := h.placed.step hH q
  entries := (step_bare hH h.placed hq).2.trans (Plain.step_perm H.eq r.order mark h.entries q)

theorem sameEntries (hH : H.Lawful) (h : Follows H m l) {q : Request mark β ν}
    (hq : q.Unordered) :
    (Hashed.step H (H.onBrands mark) r m q).1.SameEntries
      (Plain.step mark H.eq r.order l q).1 := by
  rw [(step_bare hH h.placed hq).1]
  exact Plain.answer_sameEntries hH.same h.placed.distinct h.entries r.order mark hq

/-- When the order of the keys is total and tells them apart, entries come in that order. -/
theorem sameAnswer [Std.TransCmp r.order] (hH : H.Lawful) (hlevel : H.eq = levelBy r.order)
    (h : Follows H m l) {q : Request mark β ν} (hq : q.Unordered) :
    (Hashed.step H (H.onBrands mark) r m q).1 = (Plain.step mark H.eq r.order l q).1 := by
  have hdistinct := h.placed.distinct
  rw [(step_bare hH h.placed hq).1]
  rw [hlevel] at hdistinct ⊢
  exact Plain.answer_perm hdistinct h.entries mark q

end Hashed.Follows

theorem Hashed.follows_empty (H : Hashing β) (n : Nat) :
    Follows H (empty (n + 1) : Hashed mark β ν) [] where
  placed := placed_empty H n
  entries := by
    have hnone : (empty (n + 1) : Hashed mark β ν).flatten = [] := List.flatten_replicate_nil
    rw [hnone]
    exact List.Perm.nil

/-! ## Whole runs -/

/-- The answers of one list of entries under bare keys, and the entries that are left. -/
def plainRun (mark : μ) (c : Comparison β) (r : Ranking β) (requests : List (Request mark β ν)) :
    List (Answer mark β ν) × Plain β ν :=
  run (Plain.step mark (fun a b => (c.eq a b).value) r.order) [] requests

/-- The answers of an ordered map that starts without entries, and the map that is left. -/
def orderedRun (r : Ranking β) (requests : List (Request mark β ν)) :
    List (Answer mark β ν) × Ordered mark β ν := run (Ordered.step r) [] requests

/-- How a hashed map carries out requests: it reaches a key through the key's own equality and
hash, and a bare base through those of the base. -/
def hashedStep (mix : List UInt8 → Nat) (c : Comparison β) (feed : HashFeed β) (r : Ranking β) :
    Hashed mark β ν → Request mark β ν → Answer mark β ν × Hashed mark β ν :=
  Hashed.step (.through mix c feed) (.through mix (c.brand mark) (feed.brand mark)) r

/-- The answers of a hashed map that starts without entries in a number of buckets, and the map
that is left. -/
def hashedRun (mix : List UInt8 → Nat) (c : Comparison β) (feed : HashFeed β) (r : Ranking β)
    (buckets : Nat) (requests : List (Request mark β ν)) :
    List (Answer mark β ν) × Hashed mark β ν :=
  run (hashedStep mix c feed r) (Hashed.empty buckets) requests

/-- The order is total, and equal values are those that are level in it. -/
structure OrderLaw (c : Comparison β) (r : Ranking β) : Prop where
  total : Std.TransCmp r.order
  level : ∀ a b, (c.eq a b).value = levelBy r.order a b

/-- Equality is an equivalence, and equal values feed equal bytes. -/
structure HashLaw (c : Comparison β) (feed : HashFeed β) : Prop where
  same : Sameness fun a b => (c.eq a b).value
  bytes : ∀ a b, (c.eq a b).value = true → (feed.one a).value = (feed.one b).value

variable {c : Comparison β} {r : Ranking β} {feed : HashFeed β}

theorem OrderLaw.eq_levelBy (h : OrderLaw c r) :
    (fun a b => (c.eq a b).value) = levelBy r.order := by
  funext a b
  exact h.level a b

theorem OrderLaw.same (h : OrderLaw c r) : Sameness fun a b => (c.eq a b).value := by
  have htotal := h.total
  rw [h.eq_levelBy]
  exact sameness_levelBy r.order

theorem HashLaw.lawful (h : HashLaw c feed) (mix : List UInt8 → Nat) :
    (Hashing.through mix c feed).Lawful where
  same := h.same
  digest a b hab := congrArg mix (h.bytes a b hab)

theorem hashedStep_eq (mix : List UInt8 → Nat) (c : Comparison β) (feed : HashFeed β)
    (r : Ranking β) :
    (hashedStep mix c feed r : Hashed mark β ν → _) =
      Hashed.step (.through mix c feed) ((Hashing.through mix c feed).onBrands mark) r := by
  unfold hashedStep
  rw [Hashing.through_brand]

theorem keysDiffer_plainRun (h : Sameness fun a b => (c.eq a b).value)
    (requests : List (Request mark β ν)) :
    ∀ a ∈ (plainRun mark c r requests).1, a.KeysDiffer fun a b => (c.eq a b).value := by
  have hstart : Plain.Distinct (fun a b => (c.eq a b).value) ([] : Plain β ν) := List.Pairwise.nil
  refine run_answers _ (fun m q hm => ?_) hstart requests
  exact ⟨Plain.Distinct.answer h hm q, hm.step h mark q⟩

theorem orderedRun_follows (h : OrderLaw c r) (requests : List (Request mark β ν)) :
    (orderedRun r requests).1 = (plainRun mark c r requests).1 ∧
      Ordered.Follows r.order (orderedRun r requests).2 (plainRun mark c r requests).2 := by
  have htotal := h.total
  have hstart : Ordered.Follows r.order ([] : Ordered mark β ν) [] :=
    ⟨List.Pairwise.nil, List.Perm.nil⟩
  have hrun := run_related (Ordered.step r) (Plain.step mark (levelBy r.order) r.order)
    (fun m l q _ hm => hm.step q) hstart fun q (_ : q ∈ requests) => trivial
  unfold orderedRun plainRun
  rw [h.eq_levelBy]
  exact ⟨List.forall₂_eq_eq_eq ▸ hrun.1, hrun.2⟩

theorem hashedRun_follows (h : HashLaw c feed) (mix : List UInt8 → Nat) (r : Ranking β) (n : Nat)
    {requests : List (Request mark β ν)} (hall : ∀ q ∈ requests, q.Unordered) :
    List.Forall₂ Answer.SameEntries (hashedRun mix c feed r (n + 1) requests).1
        (plainRun mark c r requests).1 ∧
      Hashed.Follows (.through mix c feed) (hashedRun mix c feed r (n + 1) requests).2
        (plainRun mark c r requests).2 := by
  have hH := h.lawful mix
  have hstart : Hashed.Follows (.through mix c feed) (Hashed.empty (n + 1) : Hashed mark β ν) [] :=
    Hashed.follows_empty _ n
  unfold hashedRun plainRun
  rw [hashedStep_eq]
  exact run_related _ _ (fun m l q hq hm => ⟨hm.sameEntries hH hq, hm.next hH hq⟩) hstart hall

theorem hashedRun_eq_plainRun (h : OrderLaw c r) (h' : HashLaw c feed) (mix : List UInt8 → Nat)
    (n : Nat) {requests : List (Request mark β ν)} (hall : ∀ q ∈ requests, q.Unordered) :
    (hashedRun mix c feed r (n + 1) requests).1 = (plainRun mark c r requests).1 := by
  have htotal := h.total
  have hH := h'.lawful mix
  have hstart : Hashed.Follows (.through mix c feed) (Hashed.empty (n + 1) : Hashed mark β ν) [] :=
    Hashed.follows_empty _ n
  unfold hashedRun plainRun
  rw [hashedStep_eq]
  have hrun := run_related (Hashed.step _ ((Hashing.through mix c feed).onBrands mark) r)
    (Plain.step mark (fun a b => (c.eq a b).value) r.order)
    (fun m l q hq hm => ⟨hm.sameAnswer hH h.eq_levelBy hq, hm.next hH hq⟩) hstart hall
  exact List.forall₂_eq_eq_eq ▸ hrun.1

theorem forall₂_keysDiffer {same : β → β → Bool} (h : Sameness same)
    {answers answers' : List (Answer mark β ν)}
    (halike : List.Forall₂ Answer.SameEntries answers answers')
    (hdiffer : ∀ a ∈ answers', a.KeysDiffer same) : ∀ a ∈ answers, a.KeysDiffer same := by
  induction halike with
  | nil => exact hdiffer
  | cons hab _ ih =>
    intro a ha
    rcases List.mem_cons.mp ha with rfl | hin
    · exact hab.keysDiffer h (hdiffer _ List.mem_cons_self)
    · exact ih (fun a' ha' => hdiffer a' (List.mem_cons_of_mem _ ha')) a hin

/-- A run of a map tells what the run of a list of entries tells. -/
structure AnswersAs {M : Type} (same : β → β → Bool)
    (alike : Answer mark β ν → Answer mark β ν → Prop)
    (step : M → Request mark β ν → Answer mark β ν × M) (held : M → List (Brand mark β × ν))
    (map : List (Answer mark β ν) × M) (list : List (Answer mark β ν) × Plain β ν) : Prop where
  answers : List.Forall₂ alike map.1 list.1
  entries : ((held map.2).map bare).Perm list.2
  keysDiffer : ∀ a ∈ map.1, a.KeysDiffer same
  /-- A bare base finds what the brand around it finds. -/
  lookups : ∀ key, (step map.2 (.get key)).1 = (step map.2 (.getBrand ⟨key⟩)).1

/-- Whatever is asked of a map with branded keys, its answers are those of one list of entries
under bare keys, where a key that comes again leaves the first one in place. An ordered map needs
a total order that equality goes by; a hashed map needs an equality that hashing goes by, and
tells its entries in no particular order. A base that has both gets the same answers from both. -/
theorem maps_keyed_by_brands_answer_as_one_list (mark : μ) (c : Comparison β) (r : Ranking β)
    (feed : HashFeed β) (mix : List UInt8 → Nat) (n : Nat) (requests : List (Request mark β ν)) :
    (OrderLaw c r →
      AnswersAs (fun a b => (c.eq a b).value) Eq (Ordered.step r) id (orderedRun r requests)
        (plainRun mark c r requests)) ∧
    (HashLaw c feed → (∀ q ∈ requests, q.Unordered) →
      AnswersAs (fun a b => (c.eq a b).value) Answer.SameEntries (hashedStep mix c feed r)
        List.flatten (hashedRun mix c feed r (n + 1) requests) (plainRun mark c r requests)) ∧
    (OrderLaw c r → HashLaw c feed → (∀ q ∈ requests, q.Unordered) →
      (hashedRun mix c feed r (n + 1) requests).1 = (orderedRun r requests).1) := by
  refine ⟨fun horder => ?ordered, fun hhash hall => ?hashed, fun horder hhash hall => ?both⟩
  case ordered =>
    obtain ⟨hanswers, hend⟩ := orderedRun_follows horder requests
    have hdiffer := keysDiffer_plainRun (r := r) horder.same requests
    exact {
      answers := by rw [List.forall₂_eq_eq_eq]; exact hanswers
      entries := hend.entries
      keysDiffer := by rw [hanswers]; exact hdiffer
      lookups := fun _ => rfl }
  case hashed =>
    obtain ⟨hanswers, hend⟩ := hashedRun_follows hhash mix r n hall
    have hdiffer := keysDiffer_plainRun (r := r) hhash.same requests
    exact {
      answers := hanswers
      entries := hend.entries
      keysDiffer := forall₂_keysDiffer hhash.same hanswers hdiffer
      lookups := fun _ => rfl }
  case both =>
    rw [hashedRun_eq_plainRun horder hhash mix n hall, (orderedRun_follows horder requests).1]

/-! ## Text whose case does not count -/

theorem caseless_orderLaw : OrderLaw (.ofOrder Caseless.order) (.ofOrder Caseless.order) where
  total := {
    eq_swap {a b} :=
      show compare a.key b.key = (compare b.key a.key).swap from Std.OrientedCmp.eq_swap
    isLE_trans {a b c} (hab : (compare a.key b.key).isLE) (hbc : (compare b.key c.key).isLE) :=
      show (compare a.key c.key).isLE from Std.TransCmp.isLE_trans hab hbc }
  level _ _ := rfl

theorem caseless_hashLaw : HashLaw (.ofOrder Caseless.order) Caseless.feed where
  same := caseless_orderLaw.same
  bytes a b hab := by
    have hkey : a.key = b.key := Std.LawfulEqCmp.eq_of_compare (beq_iff_eq.mp hab)
    change (HashFeed.text.one a.key).value = (HashFeed.text.one b.key).value
    rw [hkey]

theorem caseless_level {a b : Caseless}
    (h : a.text.toList.map Char.toLower = b.text.toList.map Char.toLower) :
    Caseless.order a b = .eq := by
  have hkey : a.key = b.key := by
    apply String.toList_inj.mp
    unfold Caseless.key
    rw [String.toList_map, String.toList_map]
    exact h
  unfold Caseless.order
  rw [hkey]
  exact Std.ReflCmp.compare_self

/-- A key is put in, then again in another spelling, and then asked for in a third one. -/
def respelled (first second third : β) : List (Request () β Nat) :=
  [.insert ⟨first⟩ 1, .insert ⟨second⟩ 2, .keyOf third, .size]

theorem unordered_respelled (first second third : β) :
    ∀ q ∈ respelled first second third, q.Unordered := by
  simp [respelled, Request.Unordered]

theorem orderedRun_respelled {cmp : β → β → Ordering} {first second third : β}
    (hsecond : cmp second first = .eq) (hthird : cmp third first = .eq) :
    (orderedRun (.ofOrder cmp) (respelled first second third)).1 =
      [.value none, .value (some 1), .entry (some (⟨first⟩, 2)), .size 1] := by
  simp [orderedRun, respelled, run, Ordered.step, Ordered.insert, Ordered.find?, Ranking.order,
    Ranking.brand, Ranking.ofOrder, Logged.silent, hsecond, hthird]

theorem the_first_spelling_stays :
    OrderLaw (.ofOrder Caseless.order) (.ofOrder Caseless.order) ∧
      HashLaw (.ofOrder Caseless.order) Caseless.feed ∧
      (∀ q ∈ respelled (⟨"Key"⟩ : Caseless) ⟨"KEY"⟩ ⟨"key"⟩, q.Unordered) ∧
      AnswersAs (fun a b => ((Comparison.ofOrder Caseless.order).eq a b).value) Eq
        (Ordered.step (.ofOrder Caseless.order)) id
        (orderedRun (.ofOrder Caseless.order) (respelled ⟨"Key"⟩ ⟨"KEY"⟩ ⟨"key"⟩))
        (plainRun () (.ofOrder Caseless.order) (.ofOrder Caseless.order)
          (respelled ⟨"Key"⟩ ⟨"KEY"⟩ ⟨"key"⟩)) ∧
      AnswersAs (fun a b => ((Comparison.ofOrder Caseless.order).eq a b).value)
        Answer.SameEntries
        (hashedStep Hashing.mixBytes (.ofOrder Caseless.order) Caseless.feed
          (.ofOrder Caseless.order))
        List.flatten
        (hashedRun Hashing.mixBytes (.ofOrder Caseless.order) Caseless.feed
          (.ofOrder Caseless.order) 8 (respelled ⟨"Key"⟩ ⟨"KEY"⟩ ⟨"key"⟩))
        (plainRun () (.ofOrder Caseless.order) (.ofOrder Caseless.order)
          (respelled ⟨"Key"⟩ ⟨"KEY"⟩ ⟨"key"⟩)) ∧
      (hashedRun Hashing.mixBytes (.ofOrder Caseless.order) Caseless.feed
          (.ofOrder Caseless.order) 8 (respelled ⟨"Key"⟩ ⟨"KEY"⟩ ⟨"key"⟩)).1 =
        [.value none, .value (some 1), .entry (some (⟨⟨"Key"⟩⟩, 2)), .size 1] := by
  have hall := unordered_respelled (⟨"Key"⟩ : Caseless) ⟨"KEY"⟩ ⟨"key"⟩
  obtain ⟨hordered, hhashed, hboth⟩ := maps_keyed_by_brands_answer_as_one_list () _ _ _
    Hashing.mixBytes 7 (respelled (⟨"Key"⟩ : Caseless) ⟨"KEY"⟩ ⟨"key"⟩)
  have hspelling := orderedRun_respelled (caseless_level (a := ⟨"KEY"⟩) (b := ⟨"Key"⟩) (by decide))
    (caseless_level (a := ⟨"key"⟩) (b := ⟨"Key"⟩) (by decide))
  have hanswers := (hboth caseless_orderLaw caseless_hashLaw hall).trans hspelling
  exact ⟨caseless_orderLaw, caseless_hashLaw, hall, hordered caseless_orderLaw,
    hhashed caseless_hashLaw hall, hanswers⟩

end NominalBrand.Keyed
