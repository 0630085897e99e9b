-- The laws of arranging brands. An order may hold different values level, so a
-- law that says which value stands at a place must also say which of the level
-- ones it is. Sorting keeps the level values of each kind as they were given,
-- and the set, the first, the last and the counts are all read off that.
import NominalBrand.Base.Catalogue
import NominalBrand.Inspection
import NominalBrand.Proofs.Keyed.Agreement

namespace NominalBrand

open Keyed (levelBy sameness_levelBy)

namespace Sorting

variable {α : Type} {cmp : α → α → Ordering}

/-! ## What the results have to be -/

/-- The values that ascend, one for each kind of level values: of each kind the one given first. -/
structure FirstOfEach (cmp : α → α → Ordering) (values firsts : List α) : Prop where
  ascending : firsts.Pairwise fun a b => cmp a b = .lt
  mem_iff : ∀ a, a ∈ firsts ↔ values.find? (levelBy cmp a) = some a

/-- No value stands after this one, and no level one was given later. -/
structure IsLast (cmp : α → α → Ordering) (values : List α) (m : α) : Prop where
  upper : ∀ a ∈ values, cmp a m ≠ .gt
  given : (values.filter (levelBy cmp m)).getLast? = some m

/-- No value stands before this one, and no level one was given earlier. -/
structure IsFirst (cmp : α → α → Ordering) (values : List α) (m : α) : Prop where
  lower : ∀ a ∈ values, cmp m a ≠ .gt
  given : values.find? (levelBy cmp m) = some m

/-- The values before a place have a property, and from that place on none has it. -/
def PartsAt (p : α → Bool) (values : List α) (place : Nat) : Prop :=
  (∀ a ∈ values.take place, p a = true) ∧ ∀ a ∈ values.drop place, p a = false

theorem IsLast.mem {values : List α} {m : α} (h : IsLast cmp values m) : m ∈ values :=
  List.mem_of_mem_filter (List.mem_of_getLast? h.given)

theorem IsFirst.mem {values : List α} {m : α} (h : IsFirst cmp values m) : m ∈ values :=
  List.mem_of_find?_eq_some h.given

/-! ## What holds of any comparison -/

theorem sort_perm (values : List α) : (sort cmp values).Perm values := List.mergeSort_perm _ _

theorem sort_ne_nil (a : α) (rest : List α) : sort cmp (a :: rest) ≠ [] := by
  intro hnil
  have hlength : (sort cmp (a :: rest)).length = rest.length + 1 := (sort_perm _).length_eq
  rw [hnil] at hlength
  simp at hlength

theorem firstOfEach_nil : FirstOfEach cmp [] [] where
  ascending := List.Pairwise.nil
  mem_iff _ := by simp

theorem FirstOfEach.subset {values firsts : List α} (h : FirstOfEach cmp values firsts) :
    firsts ⊆ values := by
  intro a ha
  exact List.mem_of_find?_eq_some ((h.mem_iff a).mp ha)

theorem mem_insert_of_absent {a : α} {s : List α} (hs : ∀ b ∈ s, cmp a b ≠ .eq) (x : α) :
    x ∈ insert cmp a s ↔ x = a ∨ x ∈ s := by
  induction s with
  | nil => simp [insert]
  | cons b s ih =>
    have hrest := ih fun c hc => hs c (List.mem_cons_of_mem _ hc)
    unfold insert
    rcases hab : cmp a b with _ | _ | _
    · exact List.mem_cons
    · exact absurd hab (hs b List.mem_cons_self)
    · simp only [List.mem_cons, hrest, or_left_comm]

/-- Two values, each with a level one given after it: the set holds the two, in order. -/
theorem set_of_two_kinds {a a' b b' : α} (hab : cmp a b = .lt) (hba : cmp b' a = .gt)
    (hb : cmp b' b = .eq) (ha : cmp a' a = .eq) : set cmp [b, a, b', a'] = [a, b] := by
  simp [set, insert, hab, hba, hb, ha]

theorem IsLast.cons {values : List α} {a m : α} (h : IsLast cmp values m) (ha : cmp a m ≠ .gt) :
    IsLast cmp (a :: values) m where
  upper := List.forall_mem_cons.mpr ⟨ha, h.upper⟩
  given := by
    rw [List.filter_cons]
    split
    · rw [List.getLast?_cons, h.given]
      rfl
    · exact h.given

/-- A property that no value has after one without it ends at the count of the values with it. -/
theorem partitionPoint_eq_countP {p : α → Bool} {values : List α}
    (h : values.Pairwise fun a b => p b = true → p a = true) :
    partitionPoint p values = values.countP p := by
  unfold partitionPoint
  rw [Keyed.Ordered.takeWhile_eq_filter h, List.countP_eq_length_filter]

theorem partsAt_partitionPoint {p : α → Bool} {values : List α}
    (h : values.Pairwise fun a b => p b = true → p a = true) :
    PartsAt p values (partitionPoint p values) := by
  have hparts : values = values.takeWhile p ++ values.dropWhile p :=
    List.takeWhile_append_dropWhile.symm
  refine ⟨fun a ha => ?_, fun a ha => ?_⟩
  · unfold partitionPoint at ha
    rw [hparts, List.take_left' (by rw [← hparts]),
      Keyed.Ordered.takeWhile_eq_filter h] at ha
    exact (List.mem_filter.mp ha).2
  · unfold partitionPoint at ha
    rw [hparts, List.drop_left' (by rw [← hparts]),
      Keyed.Ordered.dropWhile_eq_filter h] at ha
    simpa using (List.mem_filter.mp ha).2

/-! ## Level values -/

variable [Std.TransCmp cmp]

/-- There are not two lists of the first values of each kind. -/
theorem FirstOfEach.unique {values s t : List α}
    (hs : FirstOfEach cmp values s) (ht : FirstOfEach cmp values t) : s = t := by
  have hdiffer : ∀ {a b : α}, cmp a b = .lt → a ≠ b := by
    rintro a b hab rfl
    simp [Std.ReflCmp.compare_self] at hab
  have hperm : s.Perm t := by
    rw [List.perm_ext_iff_of_nodup (hs.ascending.imp hdiffer) (ht.ascending.imp hdiffer)]
    intro a
    rw [hs.mem_iff, ht.mem_iff]
  refine List.Perm.eq_of_pairwise (fun a b _ _ hab hba => ?_) hs.ascending ht.ascending hperm
  rw [Std.OrientedCmp.gt_iff_lt.mpr hab] at hba
  contradiction

theorem lt_of_not_gt {a b : α} (hab : cmp a b ≠ .gt) (hba : cmp b a ≠ .eq) : cmp a b = .lt := by
  rcases h : cmp a b with _ | _ | _
  · rfl
  · exact absurd (Std.OrientedCmp.eq_comm.mp h) hba
  · exact absurd h hab

theorem levelBy_congr {a b : α} (hab : cmp a b = .eq) : levelBy cmp a = levelBy cmp b := by
  funext c
  exact (sameness_levelBy cmp).congr_left (beq_iff_eq.mpr hab) c

theorem levelBy_self (a : α) : levelBy cmp a a = true := (sameness_levelBy cmp).refl a

theorem IsLast.unique {values : List α} {m m' : α} (h : IsLast cmp values m)
    (h' : IsLast cmp values m') : m = m' := by
  have hlevel := levelBy_congr (eq_of_not_gt (h'.upper m h.mem) (h.upper m' h'.mem))
  have hgiven := h.given
  rw [hlevel, h'.given] at hgiven
  exact (Option.some.inj hgiven).symm

theorem IsFirst.unique {values : List α} {m m' : α} (h : IsFirst cmp values m)
    (h' : IsFirst cmp values m') : m = m' := by
  have hlevel := levelBy_congr (eq_of_not_gt (h.lower m' h'.mem) (h'.lower m h.mem))
  have hgiven := h.given
  rw [hlevel, h'.given] at hgiven
  exact (Option.some.inj hgiven).symm

/-! ## Sorting -/

theorem sort_pairwise (values : List α) :
    (sort cmp values).Pairwise fun a b => cmp a b ≠ .gt := by
  have hsorted : (sort cmp values).Pairwise fun a b => inOrder cmp a b = true :=
    List.pairwise_mergeSort inOrder_trans inOrder_total values
  exact hsorted.imp fun hab => (inOrder_iff _ _).mp hab

/-- Level values stay in the order in which they were given. -/
theorem filter_sort (a : α) (values : List α) :
    (sort cmp values).filter (levelBy cmp a) = values.filter (levelBy cmp a) := by
  have hlevel : (values.filter (levelBy cmp a)).Pairwise fun b c => inOrder cmp b c = true := by
    refine List.pairwise_iff_forall_sublist.mpr fun {b c} hsub => ?_
    have hb := (List.mem_filter.mp (hsub.subset List.mem_cons_self)).2
    have hc := (List.mem_filter.mp (hsub.subset (List.mem_cons_of_mem _ List.mem_cons_self))).2
    have hbc := (sameness_levelBy cmp).trans ((sameness_levelBy cmp).symm hb) hc
    rw [inOrder_iff, beq_iff_eq.mp hbc]
    simp
  have hsub : (values.filter (levelBy cmp a)).Sublist (sort cmp values) :=
    List.sublist_mergeSort inOrder_trans inOrder_total hlevel List.filter_sublist
  have hfilter := hsub.filter (levelBy cmp a)
  simp only [List.filter_filter, Bool.and_self] at hfilter
  refine (hfilter.eq_of_length ?_).symm
  exact ((sort_perm values).filter _).length_eq.symm

/-- The first value of each kind is the same before and after sorting. -/
theorem find?_sort (a : α) (values : List α) :
    (sort cmp values).find? (levelBy cmp a) = values.find? (levelBy cmp a) := by
  rw [← List.head?_filter, ← List.head?_filter, filter_sort]

/-! ## The first of each run -/

/-- A value that is below all others is the first of its kind. -/
theorem FirstOfEach.cons {values firsts : List α} {a : α} (h : FirstOfEach cmp values firsts)
    (ha : ∀ b ∈ values, cmp a b = .lt) : FirstOfEach cmp (a :: values) (a :: firsts) where
  ascending := List.pairwise_cons.mpr ⟨fun b hb => ha b (h.subset hb), h.ascending⟩
  mem_iff x := by
    by_cases hxa : levelBy cmp x a = true
    · have hx : x ∉ firsts := by
        intro hx
        have hax := ha x (h.subset hx)
        rw [Std.OrientedCmp.eq_comm.mp (beq_iff_eq.mp hxa)] at hax
        contradiction
      rw [List.find?_cons_of_pos hxa, List.mem_cons, or_iff_left hx, Option.some.injEq, eq_comm]
    · have hx : x ≠ a := by
        rintro rfl
        exact hxa (levelBy_self x)
      rw [List.find?_cons_of_neg hxa, List.mem_cons, or_iff_right hx, h.mem_iff]

theorem firstOfEach_dropLevel {a : α} {rest : List α}
    (h : (a :: rest).Pairwise fun a b => cmp a b ≠ .gt) :
    FirstOfEach cmp (a :: rest) (a :: dropLevel cmp a rest) := by
  induction rest generalizing a with
  | nil => exact firstOfEach_nil.cons (by simp)
  | cons b rest ih =>
    obtain ⟨ha, hb⟩ := List.pairwise_cons.mp h
    unfold dropLevel
    by_cases hba : cmp b a = .eq
    · rw [if_pos hba]
      have hskip : (a :: rest).Pairwise fun a b => cmp a b ≠ .gt := h.sublist (by simp)
      have hfirsts := ih hskip
      refine ⟨hfirsts.ascending, fun x => ?_⟩
      rw [hfirsts.mem_iff, List.find?_cons, List.find?_cons, List.find?_cons]
      -- Whoever is level with the second value is level with the first one.
      have hlevel : levelBy cmp x b = levelBy cmp x a := by
        rw [(sameness_levelBy cmp).comm x b, (sameness_levelBy cmp).comm x a, levelBy_congr hba]
      rw [hlevel]
      cases levelBy cmp x a <;> rfl
    · rw [if_neg hba]
      have hab : cmp a b = .lt := lt_of_not_gt (ha b List.mem_cons_self) hba
      refine (ih hb).cons fun c hc => ?_
      rcases List.mem_cons.mp hc with rfl | hc
      · exact hab
      · have hbc := (List.pairwise_cons.mp hb).1 c hc
        exact Std.TransCmp.lt_of_lt_of_isLE hab (Ordering.isLE_iff_ne_gt.mpr hbc)

theorem firstOfEach_firstOfRuns {values : List α}
    (h : values.Pairwise fun a b => cmp a b ≠ .gt) :
    FirstOfEach cmp values (firstOfRuns cmp values) := by
  cases values with
  | nil => exact firstOfEach_nil
  | cons a rest => exact firstOfEach_dropLevel h

/-! ## The set -/

theorem insert_of_present {a b : α} {s : List α} (hs : s.Pairwise fun a b => cmp a b = .lt)
    (hb : b ∈ s) (hab : cmp a b = .eq) : insert cmp a s = s := by
  induction s with
  | nil => simp at hb
  | cons c s ih =>
    obtain ⟨hc, hs⟩ := List.pairwise_cons.mp hs
    unfold insert
    rcases List.mem_cons.mp hb with rfl | hb
    · rw [hab]
    · have hac : cmp a c = .gt := by
        rw [Std.TransCmp.congr_left hab]
        exact Std.OrientedCmp.gt_iff_lt.mpr (hc b hb)
      simp only [hac, ih hs hb]

theorem ascending_insert {a : α} {s : List α} (hs : s.Pairwise fun a b => cmp a b = .lt)
    (ha : ∀ b ∈ s, cmp a b ≠ .eq) :
    (insert cmp a s).Pairwise fun a b => cmp a b = .lt := by
  induction s with
  | nil => exact List.pairwise_singleton _ _
  | cons b s ih =>
    obtain ⟨hb, hrest⟩ := List.pairwise_cons.mp hs
    have habsent : ∀ c ∈ s, cmp a c ≠ .eq := fun c hc => ha c (List.mem_cons_of_mem _ hc)
    unfold insert
    rcases hab : cmp a b with _ | _ | _
    · refine List.pairwise_cons.mpr ⟨fun c hc => ?_, hs⟩
      rcases List.mem_cons.mp hc with rfl | hc
      · exact hab
      · exact Std.TransCmp.lt_trans hab (hb c hc)
    · exact absurd hab (ha b List.mem_cons_self)
    · refine List.pairwise_cons.mpr ⟨fun c hc => ?_, ih hrest habsent⟩
      rcases (mem_insert_of_absent habsent c).mp hc with rfl | hc
      · exact Std.OrientedCmp.gt_iff_lt.mp hab
      · exact hb c hc

/-- A value that is put in last is kept when none level with it was given before. -/
theorem FirstOfEach.insert {values s : List α} (h : FirstOfEach cmp values s) (a : α) :
    FirstOfEach cmp (values ++ [a]) (insert cmp a s) := by
  rcases hfound : values.find? (levelBy cmp a) with _ | b
  · have habsent : ∀ b ∈ s, cmp a b ≠ .eq := by
      intro b hb hab
      exact List.find?_eq_none.mp hfound b (h.subset hb) (beq_iff_eq.mpr hab)
    refine ⟨ascending_insert h.ascending habsent, fun x => ?_⟩
    rw [mem_insert_of_absent habsent, h.mem_iff, List.find?_append]
    by_cases hxa : levelBy cmp x a = true
    · rw [levelBy_congr (beq_iff_eq.mp hxa), hfound, List.find?_cons_of_pos (levelBy_self a)]
      simp [eq_comm]
    · have hx : x ≠ a := by
        rintro rfl
        exact hxa (levelBy_self x)
      rw [List.find?_cons_of_neg hxa, List.find?_nil, Option.or_none, or_iff_right hx]
  · have hab : levelBy cmp a b = true := by
      have hholds := List.find?_some hfound
      exact hholds
    have hb : b ∈ s := by
      rw [h.mem_iff, ← levelBy_congr (beq_iff_eq.mp hab)]
      exact hfound
    rw [insert_of_present h.ascending hb (beq_iff_eq.mp hab)]
    refine ⟨h.ascending, fun x => ?_⟩
    rw [h.mem_iff, List.find?_append]
    by_cases hxa : levelBy cmp x a = true
    · rw [levelBy_congr (beq_iff_eq.mp hxa), hfound, Option.some_or]
    · rw [List.find?_cons_of_neg hxa, List.find?_nil, Option.or_none]

theorem firstOfEach_set (values : List α) : FirstOfEach cmp values (set cmp values) := by
  -- The set that is there stands for the values put in so far.
  have hrun : ∀ rest done s, FirstOfEach cmp done s →
      FirstOfEach cmp (done ++ rest) (rest.foldl (fun s a => insert cmp a s) s) := by
    intro rest
    induction rest with
    | nil =>
      intro done s h
      rw [List.append_nil]
      exact h
    | cons a rest ih =>
      intro done s h
      have hdone := ih (done ++ [a]) _ (h.insert a)
      rwa [List.append_assoc, List.singleton_append] at hdone
  exact hrun values [] [] firstOfEach_nil

/-- The set is the sorted list with each run of level values reduced to its first. -/
theorem set_eq_firstOfRuns_sort (values : List α) :
    set cmp values = firstOfRuns cmp (sort cmp values) := by
  have hruns : FirstOfEach cmp (sort cmp values) (firstOfRuns cmp (sort cmp values)) :=
    firstOfEach_firstOfRuns (sort_pairwise values)
  refine (firstOfEach_set values).unique ⟨hruns.ascending, fun a => ?_⟩
  rw [hruns.mem_iff, find?_sort]

/-! ## The last and the first -/

theorem isLast_foldl (a : α) (rest : List α) :
    IsLast cmp (a :: rest) (rest.foldl (later cmp) a) := by
  induction rest generalizing a with
  | nil =>
    refine ⟨?_, ?_⟩
    · simp [Std.ReflCmp.compare_self]
    · simp [levelBy_self]
  | cons b rest ih =>
    have hrest := ih (later cmp a b)
    rw [List.foldl_cons]
    generalize rest.foldl (later cmp) (later cmp a b) = m at hrest ⊢
    unfold later at hrest
    by_cases hab : cmp a b = .gt
    · rw [if_pos hab] at hrest
      have ham := hrest.upper a List.mem_cons_self
      have hbm : cmp b m = .lt := Std.TransCmp.lt_of_lt_of_isLE (Std.OrientedCmp.gt_iff_lt.mp hab)
        (Ordering.isLE_iff_ne_gt.mpr ham)
      have hlevel : levelBy cmp m b = false := by
        unfold levelBy
        rw [Std.OrientedCmp.gt_iff_lt.mpr hbm]
        rfl
      refine ⟨fun c hc => ?_, ?_⟩
      · rcases List.mem_cons.mp hc with rfl | hc
        · exact ham
        · rcases List.mem_cons.mp hc with rfl | hc
          · simp [hbm]
          · exact hrest.upper c (List.mem_cons_of_mem _ hc)
      · have hgiven := hrest.given
        simp only [List.filter_cons, hlevel] at hgiven ⊢
        exact hgiven
    · rw [if_neg hab] at hrest
      exact hrest.cons (not_gt_trans hab (hrest.upper b List.mem_cons_self))

theorem isFirst_foldl (a : α) (rest : List α) :
    IsFirst cmp (a :: rest) (rest.foldl (earlier cmp) a) := by
  induction rest generalizing a with
  | nil =>
    refine ⟨?_, ?_⟩
    · simp [Std.ReflCmp.compare_self]
    · exact List.find?_cons_of_pos (levelBy_self a)
  | cons b rest ih =>
    have hrest := ih (earlier cmp a b)
    rw [List.foldl_cons]
    generalize rest.foldl (earlier cmp) (earlier cmp a b) = m at hrest ⊢
    unfold earlier at hrest
    by_cases hab : cmp a b = .gt
    · rw [if_pos hab] at hrest
      have hma : cmp m a = .lt := Std.TransCmp.lt_of_isLE_of_lt
        (Ordering.isLE_iff_ne_gt.mpr (hrest.lower b List.mem_cons_self))
        (Std.OrientedCmp.gt_iff_lt.mp hab)
      refine ⟨List.forall_mem_cons.mpr ⟨by simp [hma], hrest.lower⟩, ?_⟩
      rw [List.find?_cons_of_neg (by simp [levelBy, hma])]
      exact hrest.given
    · rw [if_neg hab] at hrest
      have hma := hrest.lower a List.mem_cons_self
      refine ⟨fun c hc => ?_, ?_⟩
      · rcases List.mem_cons.mp hc with rfl | hc
        · exact hma
        · rcases List.mem_cons.mp hc with rfl | hc
          · exact not_gt_trans hma hab
          · exact hrest.lower c (List.mem_cons_of_mem _ hc)
      · have hgiven := hrest.given
        by_cases hlevel : levelBy cmp m a = true
        · rw [List.find?_cons_of_pos hlevel] at hgiven ⊢
          exact hgiven
        · have hlt : cmp m a = .lt := by
            refine lt_of_not_gt hma fun heq => hlevel ?_
            exact (sameness_levelBy cmp).symm (beq_iff_eq.mpr heq)
          have hmb : cmp m b = .lt :=
            Std.TransCmp.lt_of_lt_of_isLE hlt (Ordering.isLE_iff_ne_gt.mpr hab)
          rw [List.find?_cons_of_neg hlevel] at hgiven ⊢
          rw [List.find?_cons_of_neg (by simp [levelBy, hmb])]
          exact hgiven

theorem isLast_of_sorted {values : List α} (h : values.Pairwise fun a b => cmp a b ≠ .gt) {m : α}
    (hm : values.getLast? = some m) : IsLast cmp values m := by
  obtain ⟨init, rfl⟩ := List.getLast?_eq_some_iff.mp hm
  have hinit := (List.pairwise_append.mp h).2.2
  refine ⟨fun a ha => ?_, ?_⟩
  · rcases List.mem_append.mp ha with ha | ha
    · exact hinit a ha m List.mem_cons_self
    · rw [List.mem_singleton.mp ha]
      simp [Std.ReflCmp.compare_self]
  · rw [List.filter_append, List.filter_cons_of_pos (levelBy_self m), List.filter_nil,
      List.getLast?_concat]

theorem isFirst_of_sorted {values : List α} (h : values.Pairwise fun a b => cmp a b ≠ .gt) {m : α}
    (hm : values.head? = some m) : IsFirst cmp values m := by
  obtain ⟨rest, rfl⟩ := List.head?_eq_some_iff.mp hm
  have hrest := (List.pairwise_cons.mp h).1
  refine ⟨List.forall_mem_cons.mpr ⟨?_, hrest⟩, List.find?_cons_of_pos (levelBy_self m)⟩
  simp [Std.ReflCmp.compare_self]

theorem isLast_sort {values : List α} {m : α} (h : IsLast cmp (sort cmp values) m) :
    IsLast cmp values m := by
  refine ⟨fun a ha => h.upper a ((sort_perm values).mem_iff.mpr ha), ?_⟩
  rw [← filter_sort]
  exact h.given

theorem isFirst_sort {values : List α} {m : α} (h : IsFirst cmp (sort cmp values) m) :
    IsFirst cmp values m := by
  refine ⟨fun a ha => h.lower a ((sort_perm values).mem_iff.mpr ha), ?_⟩
  rw [← find?_sort]
  exact h.given

theorem last?_eq_getLast?_sort (values : List α) :
    last? cmp values = (sort cmp values).getLast? := by
  cases values with
  | nil => simp [last?, sort]
  | cons a rest =>
    rcases hm : (sort cmp (a :: rest)).getLast? with _ | m
    · exact absurd (List.getLast?_eq_none_iff.mp hm) (sort_ne_nil a rest)
    · have hlast := isLast_sort (isLast_of_sorted (sort_pairwise (a :: rest)) hm)
      exact congrArg some ((isLast_foldl a rest).unique hlast)

theorem first?_eq_head?_sort (values : List α) :
    first? cmp values = (sort cmp values).head? := by
  cases values with
  | nil => simp [first?, sort]
  | cons a rest =>
    rcases hm : (sort cmp (a :: rest)).head? with _ | m
    · exact absurd (List.head?_eq_none_iff.mp hm) (sort_ne_nil a rest)
    · have hfirst := isFirst_sort (isFirst_of_sorted (sort_pairwise (a :: rest)) hm)
      exact congrArg some ((isFirst_foldl a rest).unique hfirst)

/-! ## The partition points -/

theorem below_falls {values : List α} (h : values.Pairwise fun a b => cmp a b ≠ .gt) (needle : α) :
    values.Pairwise fun a b => (cmp b needle == .lt) = true → (cmp a needle == .lt) = true := by
  refine h.imp fun {a b} hab hb => ?_
  have hlt := Std.TransCmp.lt_of_isLE_of_lt (Ordering.isLE_iff_ne_gt.mpr hab) (beq_iff_eq.mp hb)
  exact beq_iff_eq.mpr hlt

theorem atMost_falls {values : List α} (h : values.Pairwise fun a b => cmp a b ≠ .gt)
    (needle : α) :
    values.Pairwise fun a b => inOrder cmp b needle = true → inOrder cmp a needle = true := by
  refine h.imp fun {a b} hab hb => ?_
  exact inOrder_trans a b needle ((inOrder_iff a b).mpr hab) hb

/-- The two places that are found in the sorted list are counted in any order of the values. -/
theorem found_sort (needle : α) (values : List α) :
    found cmp needle (sort cmp values) =
      (values.countP fun a => cmp a needle == .lt,
        values.countP fun a => inOrder cmp a needle) := by
  have hsorted : (sort cmp values).Pairwise fun a b => cmp a b ≠ .gt := sort_pairwise values
  unfold found
  rw [partitionPoint_eq_countP (below_falls hsorted needle),
    partitionPoint_eq_countP (atMost_falls hsorted needle), (sort_perm values).countP_eq,
    (sort_perm values).countP_eq]

/-! ## Arranging images -/

section
variable {α' : Type} (f : α' → α) (cmp : α → α → Ordering)

/-- The order of values that compare as their images do. -/
def through (a b : α') : Ordering := cmp (f a) (f b)

instance [Std.TransCmp cmp] : Std.TransCmp (through f cmp) where
  eq_swap {a b} := Std.OrientedCmp.eq_swap (a := f a) (b := f b)
  isLE_trans {a b c} hab hbc :=
    Std.TransCmp.isLE_trans (a := f a) (b := f b) (c := f c) hab hbc

theorem sort_map (values : List α') :
    (sort (through f cmp) values).map f = sort cmp (values.map f) :=
  List.map_mergeSort fun _ _ _ _ => rfl

theorem isSorted_map (values : List α') :
    isSorted (through f cmp) values = isSorted cmp (values.map f) := by
  induction values with
  | nil => rfl
  | cons a rest ih =>
    cases rest with
    | nil => rfl
    | cons b rest =>
      simp only [isSorted, List.map_cons] at ih ⊢
      rw [ih]
      rfl

theorem sortDown_map (values : List α') :
    (sortDown (through f cmp) values).map f = sortDown cmp (values.map f) := by
  unfold sortDown
  rw [← sort_map f cmp]
  exact sort_map f (fun a b => cmp b a) _

theorem dropLevel_map (a : α') (rest : List α') :
    (dropLevel (through f cmp) a rest).map f = dropLevel cmp (f a) (rest.map f) := by
  induction rest generalizing a with
  | nil => rfl
  | cons b rest ih =>
    rw [List.map_cons, dropLevel, dropLevel]
    by_cases hba : cmp (f b) (f a) = .eq
    · rw [if_pos hba]
      exact (congrArg (List.map f) (if_pos hba)).trans (ih a)
    · rw [if_neg hba, ← ih b]
      exact congrArg (List.map f) (if_neg hba)

theorem firstOfRuns_map (values : List α') :
    (firstOfRuns (through f cmp) values).map f = firstOfRuns cmp (values.map f) := by
  cases values with
  | nil => rfl
  | cons a rest => exact congrArg (f a :: ·) (dropLevel_map f cmp a rest)

theorem insert_map (a : α') (s : List α') :
    (insert (through f cmp) a s).map f = insert cmp (f a) (s.map f) := by
  induction s with
  | nil => rfl
  | cons b s ih =>
    simp only [insert, List.map_cons, through]
    rcases cmp (f a) (f b) with _ | _ | _
    · rfl
    · rfl
    · exact congrArg (f b :: ·) ih

theorem set_map (values : List α') :
    (set (through f cmp) values).map f = set cmp (values.map f) := by
  unfold set
  rw [List.foldl_map]
  exact (List.foldl_hom (List.map f) fun s a => (insert_map f cmp a s).symm).symm

theorem last?_map (values : List α') :
    (last? (through f cmp) values).map f = last? cmp (values.map f) := by
  cases values with
  | nil => rfl
  | cons a rest =>
    simp only [last?, List.map_cons, Option.map_some, List.foldl_map]
    refine congrArg some (List.foldl_hom f fun b c => ?_).symm
    exact (apply_ite f _ _ _).symm

theorem first?_map (values : List α') :
    (first? (through f cmp) values).map f = first? cmp (values.map f) := by
  cases values with
  | nil => rfl
  | cons a rest =>
    simp only [first?, List.map_cons, Option.map_some, List.foldl_map]
    refine congrArg some (List.foldl_hom f fun b c => ?_).symm
    exact (apply_ite f _ _ _).symm

theorem found_map (needle : α') (values : List α') :
    found (through f cmp) needle values = found cmp (f needle) (values.map f) := by
  simp only [found, partitionPoint, List.takeWhile_map, List.length_map]
  rfl

end

end Sorting

/-! ## Brands -/

/-- Bare values, arranged by the same algorithms. -/
def Arrangement.ofBare {β : Type} (cmp : β → β → Ordering) (values : List β) (needle : β) :
    Arrangement β where
  wasSorted := Sorting.isSorted cmp values
  last := Sorting.last? cmp values
  first := Sorting.first? cmp values
  sorted := Sorting.sort cmp values
  sortedDown := Sorting.sortDown cmp values
  firstOfRuns := Sorting.firstOfRuns cmp (Sorting.sort cmp values)
  set := Sorting.set cmp values
  found := Sorting.found cmp needle (Sorting.sort cmp values)

theorem Base.arrange?_eq (b : Base) (mark : Mark) (values : List b.Carrier) (needle : b.Carrier) :
    b.arrange? mark values needle =
      b.offers.order?.map fun cmp => .ofBare cmp values needle := by
  rcases hr : b.offers.ranking with _ | r
  · simp [arrange?, Capabilities.order?, Capabilities.brand, hr]
  · have hbases : (Brand.ofList mark values).map Brand.base = values := Brand.bases_ofList values
    have hcmp : (r.brand mark).order = Sorting.through Brand.base r.order := rfl
    simp only [arrange?, Capabilities.order?, Capabilities.brand, hr, Option.map_some, hcmp,
      Arrangement.ofBare, Brand.bases, Sorting.isSorted_map, Sorting.last?_map,
      Sorting.first?_map, Sorting.sort_map, Sorting.sortDown_map, Sorting.firstOfRuns_map,
      Sorting.set_map, Sorting.found_map, hbases]

open Sorting in
/-- Brands of a base with a total order are sorted stably, and the other arrangements agree with the
sorted list: the set is the first of each run of it, the last and the first of all brands are its
ends, with the tie rule of each, and the two places of a needle are counted in the list as it was
given. Each arrangement is the same of the bare values. -/
theorem brands_are_arranged_in_one_order (b : Base) {r : Ranking b.Carrier}
    (hr : b.offers.ranking = some r) [Std.TransCmp r.order] (mark : Mark)
    (values : List b.Carrier) (needle : b.Carrier) :
    let cmp := (r.brand mark).order
    let brands := Brand.ofList mark values
    let sorted := sort cmp brands
    let places := found cmp ⟨needle⟩ sorted
    (sorted.Perm brands ∧ sorted.Pairwise (fun x y => cmp x y ≠ .gt) ∧
      ∀ x, sorted.filter (levelBy cmp x) = brands.filter (levelBy cmp x)) ∧
    (set cmp brands = firstOfRuns cmp sorted ∧ FirstOfEach cmp brands (set cmp brands)) ∧
    (last? cmp brands = sorted.getLast? ∧ ∀ m, last? cmp brands = some m → IsLast cmp brands m) ∧
    (first? cmp brands = sorted.head? ∧ ∀ m, first? cmp brands = some m → IsFirst cmp brands m) ∧
    (places = (brands.countP fun x => cmp x ⟨needle⟩ == .lt,
        brands.countP fun x => cmp x ⟨needle⟩ != .gt) ∧
      PartsAt (fun x => cmp x ⟨needle⟩ == .lt) sorted places.1 ∧
      PartsAt (fun x => cmp x ⟨needle⟩ != .gt) sorted places.2) ∧
    b.arrange? mark values needle = some (.ofBare r.order values needle) := by
  intro cmp brands sorted places
  have hcmp : Std.TransCmp cmp :=
    inferInstanceAs (Std.TransCmp (through (fun x : Brand mark _ => x.base) r.order))
  have hsorted : sorted.Pairwise fun x y => cmp x y ≠ .gt := sort_pairwise brands
  refine ⟨⟨sort_perm brands, hsorted, fun x => filter_sort x brands⟩,
    ⟨set_eq_firstOfRuns_sort brands, firstOfEach_set brands⟩,
    ⟨last?_eq_getLast?_sort brands, fun m hm => ?last⟩,
    ⟨first?_eq_head?_sort brands, fun m hm => ?first⟩,
    ⟨found_sort _ brands, partsAt_partitionPoint (below_falls hsorted _),
      partsAt_partitionPoint (atMost_falls hsorted _)⟩, ?bare⟩
  case last =>
    rw [last?_eq_getLast?_sort] at hm
    exact isLast_sort (isLast_of_sorted hsorted hm)
  case first =>
    rw [first?_eq_head?_sort] at hm
    exact isFirst_sort (isFirst_of_sorted hsorted hm)
  case bare =>
    rw [Base.arrange?_eq, Capabilities.order?, hr]
    rfl

open Sorting in
/-- Of two spellings of one text the sorted list keeps the order, the set the one given first, and
the ends of the list are the one given first and the one given last. -/
theorem spellings_are_arranged_in_one_order :
    let r : Ranking Caseless := .ofOrder Caseless.order
    let mark : Mark := ⟨.named "Word", .defaultField⟩
    let cmp := (r.brand mark).order
    let brands := Brand.ofList mark [⟨"b"⟩, ⟨"A"⟩, ⟨"B"⟩, (⟨"a"⟩ : Caseless)]
    let sorted := sort cmp brands
    Base.caseless.offers.ranking = some r ∧ Std.TransCmp r.order ∧
      sorted.filter (levelBy cmp ⟨⟨"a"⟩⟩) = [⟨⟨"A"⟩⟩, ⟨⟨"a"⟩⟩] ∧
      firstOfRuns cmp sorted = [⟨⟨"A"⟩⟩, ⟨⟨"b"⟩⟩] ∧ sorted.getLast? = some ⟨⟨"B"⟩⟩ ∧
      sorted.head? = some ⟨⟨"A"⟩⟩ ∧ found cmp ⟨⟨"B"⟩⟩ sorted = (2, 4) := by
  intro r mark cmp brands sorted
  have htotal : Std.TransCmp r.order := Keyed.caseless_orderLaw.total
  obtain ⟨⟨_, _, hkept⟩, ⟨hset, _⟩, ⟨hlast, _⟩, ⟨hfirst, _⟩, ⟨hplaces, _⟩, _⟩ :=
    @brands_are_arranged_in_one_order Base.caseless r rfl htotal mark
      [⟨"b"⟩, ⟨"A"⟩, ⟨"B"⟩, (⟨"a"⟩ : Caseless)] (⟨"B"⟩ : Caseless)
  have hbases : brands = [⟨⟨"b"⟩⟩, ⟨⟨"A"⟩⟩, ⟨⟨"B"⟩⟩, ⟨⟨"a"⟩⟩] := rfl
  have hkey : ∀ x y, cmp ⟨x⟩ ⟨y⟩ = compare x.key y.key := fun _ _ => rfl
  have ha : Caseless.key ⟨"a"⟩ = "a" ∧ Caseless.key ⟨"A"⟩ = "a" := by decide +kernel
  have hb : Caseless.key ⟨"b"⟩ = "b" ∧ Caseless.key ⟨"B"⟩ = "b" := by decide +kernel
  have hab : compare "a" "b" = .lt ∧ compare "b" "a" = .gt := by decide
  have hlevel : brands.filter (levelBy cmp ⟨⟨"a"⟩⟩) = [⟨⟨"A"⟩⟩, ⟨⟨"a"⟩⟩] := by
    simp [hbases, levelBy, hkey, ha, hb, hab]
  have hkinds : Sorting.set cmp brands = [⟨⟨"A"⟩⟩, ⟨⟨"b"⟩⟩] := by
    apply set_of_two_kinds <;> simp [hkey, ha, hb, hab]
  have hlatest : last? cmp brands = some ⟨⟨"B"⟩⟩ := by
    simp [hbases, last?, later, hkey, ha, hb, hab]
  have hearliest : first? cmp brands = some ⟨⟨"A"⟩⟩ := by
    simp [hbases, first?, earlier, hkey, ha, hb, hab]
  have hcounts : (brands.countP fun x => cmp x ⟨⟨"B"⟩⟩ == .lt,
      brands.countP fun x => cmp x ⟨⟨"B"⟩⟩ != .gt) = (2, 4) := by
    simp [hbases, hkey, ha, hb, hab]
  exact ⟨rfl, htotal, (hkept _).trans hlevel, hset.symm.trans hkinds, hlast.symm.trans hlatest,
    hfirst.symm.trans hearliest, hplaces.trans hcounts⟩

end NominalBrand
