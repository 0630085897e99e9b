-- The laws of taking brands out. A value in which brands are nested with
-- options, lists and pairs is compared and hashed as the bare value that is
-- left of it. A brand makes `!=`, `<`, `<=`, `>` and `>=` from equality and
-- order, while a bare base answers them itself: the laws rest on a base whose
-- own five say what these two say, and then so do those of every shape.
import NominalBrand.Base.Double
import NominalBrand.Base.Whole
import NominalBrand.Shape

namespace NominalBrand

variable {α α' β β' γ μ : Type}

namespace Comparison

/-! ## The five other comparisons follow from equality and order -/

theorem agrees_derived (eq : β → β → Logged Bool)
    (partialCmp : β → β → Logged (Option Ordering)) : (derived eq partialCmp).Agrees := by
  intro a b
  exact ⟨rfl, rfl, rfl, rfl, rfl⟩

/-- An operator on pairs reads the order of pairs, when the second parts' own operator reads
theirs and a decided order is read by its decisive side alone. -/
theorem value_pairBy {c : Comparison α} {d : Comparison β} {last : β → β → Logged Bool}
    {reads : Option Ordering → Bool} {decisive : Ordering}
    (hlast : ∀ a b, (last a b).value = reads (d.partialCmp a b).value)
    (hreads : ∀ o, o ≠ some .eq → reads o = (o == some decisive)) (a b : α × β) :
    (pairBy c decisive last a b).value = reads (pairCmp c d a b).value := by
  unfold pairBy pairCmp
  simp only [Logged.value_bind]
  split
  · exact hlast a.2 b.2
  · rename_i hdecided
    exact (hreads _ hdecided).symm

theorem Agrees.pair {c : Comparison α} {d : Comparison β} (hc : c.Agrees) (hd : d.Agrees) :
    (c.pair d).Agrees := by
  intro a b
  refine ⟨?ne, ?lt, ?le, ?gt, ?ge⟩
  case ne =>
    have hfirst := (hc a.1 b.1).1
    have hsecond := (hd a.2 b.2).1
    simp only [Comparison.pair, Logged.value_bind, hfirst]
    cases (c.eq a.1 b.1).value with
    | false => rfl
    | true => exact hsecond
  case lt =>
    apply value_pairBy fun a b => (hd a b).2.1
    intro o _
    rfl
  case le =>
    apply value_pairBy fun a b => (hd a b).2.2.1
    intro o ho
    simp [isAtMost, ho]
  case gt =>
    apply value_pairBy fun a b => (hd a b).2.2.2.1
    intro o _
    rfl
  case ge =>
    apply value_pairBy fun a b => (hd a b).2.2.2.2
    intro o ho
    simp [isAtLeast, ho]

/-! ## Lists and pairs, by their first difference -/

/-- The verdict of the first pair that is not level, also when it is that there is no order. -/
def firstVerdict (verdicts : List (Option Ordering)) (otherwise : Ordering) : Option Ordering :=
  (verdicts.find? (· != some .eq)).getD (some otherwise)

theorem firstVerdict_cons_level (verdicts : List (Option Ordering)) (otherwise : Ordering) :
    firstVerdict (some .eq :: verdicts) otherwise = firstVerdict verdicts otherwise := rfl

theorem firstVerdict_cons_decided {verdict : Option Ordering} (h : verdict ≠ some .eq)
    (verdicts : List (Option Ordering)) (otherwise : Ordering) :
    firstVerdict (verdict :: verdicts) otherwise = verdict := by
  have hdecides : (verdict != some .eq) = true := bne_iff_ne.mpr h
  simp only [firstVerdict, List.find?_cons, hdecides, Option.getD_some]

theorem value_noneDiffers {c : Comparison β} (h : c.Agrees) (as bs : List β) :
    (c.noneDiffers as bs).value = (List.zipWith (fun a b => (c.eq a b).value) as bs).all id := by
  induction as generalizing bs with
  | nil => rfl
  | cons a as ih =>
    cases bs with
    | nil => rfl
    | cons b bs =>
      have hne := (h a b).1
      simp only [noneDiffers, Logged.value_bind, hne, List.zipWith_cons_cons, List.all_cons]
      cases (c.eq a b).value with
      | false => rfl
      | true => exact ih bs

/-- Lists are equal when they have one length and no pair of elements differs. -/
theorem value_listEq {c : Comparison β} (h : c.Agrees) (as bs : List β) :
    (c.listEq as bs).value = (decide (as.length = bs.length) &&
      (List.zipWith (fun a b => (c.eq a b).value) as bs).all id) := by
  unfold listEq
  by_cases hlength : as.length = bs.length
  · rw [if_pos hlength, value_noneDiffers h, decide_eq_true hlength, Bool.true_and]
  · rw [if_neg hlength, decide_eq_false hlength, Bool.false_and]
    rfl

/-- Lists are ordered by their first pair that is not level, and without one by their lengths. -/
theorem value_listCmp (c : Comparison β) (as bs : List β) :
    (c.listCmp as bs).value =
      firstVerdict (List.zipWith (fun a b => (c.partialCmp a b).value) as bs)
        (compare as.length bs.length) := by
  induction as generalizing bs with
  | nil => cases bs <;> rfl
  | cons a as ih =>
    cases bs with
    | nil => rfl
    | cons b bs =>
      have hlengths : compare (a :: as).length (b :: bs).length = compare as.length bs.length := by
        simp [compare, compareOfLessAndEq]
      simp only [listCmp, Logged.value_bind, List.zipWith_cons_cons, hlengths]
      by_cases hlevel : (c.partialCmp a b).value = some .eq
      · rw [hlevel, firstVerdict_cons_level]
        exact ih bs
      · rw [firstVerdict_cons_decided hlevel]
        split
        · exact absurd ‹_› hlevel
        · rfl

/-- Pairs are ordered by their first parts that are not level. -/
theorem value_pairCmp (c : Comparison α) (d : Comparison β) (a b : α × β) :
    (pairCmp c d a b).value =
      firstVerdict [(c.partialCmp a.1 b.1).value, (d.partialCmp a.2 b.2).value] .eq := by
  unfold pairCmp
  simp only [Logged.value_bind]
  split
  · rename_i hlevel
    rw [hlevel, firstVerdict_cons_level]
    by_cases hsecond : (d.partialCmp a.2 b.2).value = some .eq
    · rw [hsecond]
      rfl
    · rw [firstVerdict_cons_decided hsecond]
  · rename_i hdecided
    rw [firstVerdict_cons_decided hdecided]
    rfl

/-! ## Maps that change no comparison -/

/-- Equality and order say of two values what they say of the values that `φ` sends them to. -/
structure KeptBy (φ : α → α') (c : Comparison α) (d : Comparison α') : Prop where
  eq : ∀ a b, (c.eq a b).value = (d.eq (φ a) (φ b)).value
  order : ∀ a b, (c.partialCmp a b).value = (d.partialCmp (φ a) (φ b)).value

theorem KeptBy.brand {φ : α → α'} {c : Comparison α} {d : Comparison α'} (h : c.KeptBy φ d)
    (mark : μ) : (c.brand mark).KeptBy (fun v => φ v.base) d where
  eq a b := h.eq a.base b.base
  order a b := h.order a.base b.base

theorem KeptBy.option {φ : α → α'} {c : Comparison α} {d : Comparison α'} (h : c.KeptBy φ d) :
    c.option.KeptBy (Option.map φ) d.option where
  eq a b := by
    cases a with
    | none => cases b <;> rfl
    | some a => cases b with
      | none => rfl
      | some b => exact h.eq a b
  order a b := by
    cases a with
    | none => cases b <;> rfl
    | some a => cases b with
      | none => rfl
      | some b => exact h.order a b

/-- The brands compare element by element with a made `!=`, the bare elements with their own. -/
theorem KeptBy.list {φ : α → α'} {c : Comparison α} {d : Comparison α'} (h : c.KeptBy φ d)
    (hc : c.Agrees) (hd : d.Agrees) : c.list.KeptBy (List.map φ) d.list where
  eq as bs := by
    simp only [Comparison.list, derived, value_listEq hc, value_listEq hd, List.length_map,
      List.zipWith_map, h.eq]
  order as bs := by
    simp only [Comparison.list, derived, value_listCmp, List.length_map, List.zipWith_map, h.order]

theorem KeptBy.pair {φ : α → α'} {ψ : β → β'} {c : Comparison α} {c' : Comparison α'}
    {d : Comparison β} {d' : Comparison β'} (h : c.KeptBy φ c') (h' : d.KeptBy ψ d') :
    (c.pair d).KeptBy (fun v => (φ v.1, ψ v.2)) (c'.pair d') where
  eq a b := by
    simp only [Comparison.pair, Logged.value_bind, h.eq]
    cases (c'.eq (φ a.1) (φ b.1)).value with
    | false => rfl
    | true => exact h'.eq a.2 b.2
  order a b := by simp only [Comparison.pair, value_pairCmp, h.order, h'.order]

theorem KeptBy.startsWith {φ : α → α'} {c : Comparison α} {d : Comparison α'} (h : c.KeptBy φ d)
    (hc : c.Agrees) (hd : d.Agrees) (as bs : List α) :
    (c.startsWith as bs).value = (d.startsWith (as.map φ) (bs.map φ)).value := by
  have hlist := (h.list hc hd).eq bs (as.take bs.length)
  unfold Comparison.startsWith
  simp only [List.length_map]
  by_cases hlength : bs.length ≤ as.length
  · rw [if_pos hlength, if_pos hlength, ← List.map_take]
    exact hlist
  · rw [if_neg hlength, if_neg hlength]

/-- When both sides agree with themselves, each operator answers alike on both. -/
theorem KeptBy.ask {φ : α → α'} {c : Comparison α} {d : Comparison α'} (h : c.KeptBy φ d)
    (hc : c.Agrees) (hd : d.Agrees) {r : Option (Ranking α)} {q : Option (Ranking α')} (a b : α)
    (hr : (Operator.ask c r a b .cmp).value = (Operator.ask d q (φ a) (φ b) .cmp).value)
    (op : Operator) :
    (Operator.ask c r a b op).value = (Operator.ask d q (φ a) (φ b) op).value := by
  obtain ⟨hne, hlt, hle, hgt, hge⟩ := hc a b
  obtain ⟨hne', hlt', hle', hgt', hge'⟩ := hd (φ a) (φ b)
  cases op with
  | eq => exact congrArg Reply.truth (h.eq a b)
  | ne => exact congrArg Reply.truth (by rw [hne, hne', h.eq])
  | lt => exact congrArg Reply.truth (by rw [hlt, hlt', h.order])
  | le => exact congrArg Reply.truth (by rw [hle, hle', h.order])
  | gt => exact congrArg Reply.truth (by rw [hgt, hgt', h.order])
  | ge => exact congrArg Reply.truth (by rw [hge, hge', h.order])
  | partialCmp => exact congrArg Reply.ordering (h.order a b)
  | cmp => exact hr

end Comparison

/-! ## Ranking and hashing -/

theorem Ranking.list_map {r : Ranking α} {q : Ranking α'} {φ : α → α'}
    (h : ∀ a b, r a b = q (φ a) (φ b)) (as bs : List α) :
    r.list as bs = q.list (as.map φ) (bs.map φ) := by
  induction as generalizing bs with
  | nil => cases bs <;> rfl
  | cons a as ih =>
    cases bs with
    | nil => rfl
    | cons b bs =>
      simp only [Ranking.list, List.map_cons, h]
      congr 1
      funext o
      cases o with
      | eq => exact ih bs
      | lt | gt => rfl

/-- Values of two types feed the same bytes in a row, when each feeds what the other does and
neither type has a way of its own to feed a row. -/
theorem HashFeed.Agrees.many_map {f : HashFeed α} {g : HashFeed α'} (hf : f.Agrees) (hg : g.Agrees)
    {φ : α → α'} (h : ∀ a, (f.one a).value = (g.one (φ a)).value) (as : List α) :
    (f.many as).value = (g.many (as.map φ)).value := by
  rw [hf as, hg (as.map φ), List.flatMap_map]
  simp only [h]

/-! ## Shapes -/

namespace Shape

theorem agrees_comparison {c : Comparison β} (h : c.Agrees) (s : Shape) :
    (s.comparison c).Agrees := by
  induction s with
  | base => exact h
  | brand _ _ _ | option _ _ | list _ _ => exact Comparison.agrees_derived _ _
  | pair s t ih ih' => exact ih.pair ih'

/-- Taking the brands out changes neither equality nor order. -/
theorem keptBy_strip {c : Comparison β} (h : c.Agrees) (s : Shape) :
    (s.comparison c).KeptBy s.strip (s.erase.comparison c) := by
  induction s with
  | base => exact ⟨fun _ _ => rfl, fun _ _ => rfl⟩
  | brand mark s ih => exact ih.brand mark
  | option s ih => exact ih.option
  | list s ih => exact ih.list (agrees_comparison h s) (agrees_comparison h s.erase)
  | pair s t ih ih' => exact ih.pair ih'

/-- The base is asked to rank the same bases in the same order. -/
theorem ranking_strip (r : Ranking β) (s : Shape) (a b : s.Carrier β) :
    s.ranking r a b = s.erase.ranking r (s.strip a) (s.strip b) := by
  induction s with
  | base => rfl
  | brand mark s ih => exact ih a.base b.base
  | option s ih =>
    cases a with
    | none => cases b <;> rfl
    | some a => cases b with
      | none => rfl
      | some b => exact ih a b
  | list s ih => exact Ranking.list_map ih a b
  | pair s t ih ih' =>
    simp only [ranking, Ranking.pair, erase, strip, ih, ih']

/-- Only the base itself may feed a row in a way of its own. -/
theorem agrees_feed {f : HashFeed β} {s : Shape} (h : s = .base → f.Agrees) :
    (s.feed f).Agrees := by
  cases s with
  | base => exact h rfl
  | brand _ _ | option _ | list _ | pair _ _ => exact HashFeed.agrees_ofOne _

/-- What stands in a row feeds the same bytes without its brands: one by one where it is not the
base itself, and where it is only the base there is nothing to take out. -/
theorem many_strip {f : HashFeed β} {s : Shape} (hf : s.isBrandedBase = true → f.Agrees)
    (h : ∀ v : s.Carrier β, ((s.feed f).one v).value = ((s.erase.feed f).one (s.strip v)).value)
    (vs : List (s.Carrier β)) :
    ((s.feed f).many vs).value = ((s.erase.feed f).many (vs.map s.strip)).value := by
  cases s with
  | base =>
    have hstrip : vs.map (strip .base) = vs := List.map_id vs
    rw [hstrip]
    rfl
  | brand mark s =>
    have hbare : ((brand mark s).erase.feed f).Agrees :=
      agrees_feed fun herase => hf (decide_eq_true herase)
    exact (HashFeed.agrees_ofOne _).many_map hbare h vs
  | option _ | list _ | pair _ _ =>
    exact (HashFeed.agrees_ofOne _).many_map (HashFeed.agrees_ofOne _) h vs

/-- A hasher is fed the same bytes in the same order, provided that the base feeds a row of values
as it feeds the values, wherever branded ones stand in a row. -/
theorem feed_strip (f : HashFeed β) (s : Shape) (hf : s.hasBrandedList = true → f.Agrees)
    (v : s.Carrier β) : ((s.feed f).one v).value = ((s.erase.feed f).one (s.strip v)).value := by
  induction s with
  | base => rfl
  | brand mark s ih => exact ih hf v.base
  | option s ih =>
    cases v with
    | none => rfl
    | some v => exact congrArg (HashFeed.littleEndian 8 1 ++ ·) (ih hf v)
  | list s ih =>
    have hrow := many_strip (fun h => hf (by simp [hasBrandedList, h]))
      (ih fun h => hf (by simp [hasBrandedList, h])) v
    have hlength : (List.map s.strip v).length = List.length v := List.length_map _
    change HashFeed.littleEndian 8 (List.length v) ++ _ =
      HashFeed.littleEndian 8 (List.map s.strip v).length ++ _
    rw [hlength]
    exact congrArg (HashFeed.littleEndian 8 (List.length v) ++ ·) hrow
  | pair s t ih ih' =>
    have hfirst := ih (fun h => hf (by simp [hasBrandedList, h])) v.1
    have hsecond := ih' (fun h => hf (by simp [hasBrandedList, h])) v.2
    simp only [feed, HashFeed.pair, HashFeed.ofOne, erase, strip, Logged.value_bind,
      Logged.value_pure, hfirst, hsecond]

/-! ## The law -/

/-- Two values of a shape answer every operator as the values that are left when each brand in
them is replaced by its base, and lists of them start with one another as the bare lists do. A
value feeds a hasher the bytes of the bare one; where branded bases stand in a list, the base must
feed a row of values as it feeds the values. Lists and pairs are ordered by the first elements that
are not level, also where these have no order. -/
theorem erasing_brands_changes_no_answer {c : Comparison β} (h : c.Agrees)
    (r : Option (Ranking β)) (f : HashFeed β) (s t : Shape) :
    (∀ (a b : s.Carrier β) (op : Operator),
      (Operator.ask (s.comparison c) (r.map fun r => s.ranking r) a b op).value =
        (Operator.ask (s.erase.comparison c) (r.map fun r => s.erase.ranking r)
          (s.strip a) (s.strip b) op).value) ∧
    (∀ as bs : List (s.Carrier β),
      ((s.comparison c).startsWith as bs).value =
        ((s.erase.comparison c).startsWith (as.map s.strip) (bs.map s.strip)).value) ∧
    ((s.hasBrandedList = true → f.Agrees) → ∀ v : s.Carrier β,
      ((s.feed f).one v).value = ((s.erase.feed f).one (s.strip v)).value) ∧
    (∀ as bs : List (s.Carrier β),
      ((Shape.comparison c (.list s)).partialCmp as bs).value =
        Comparison.firstVerdict
          (List.zipWith (fun a b => ((s.comparison c).partialCmp a b).value) as bs)
          (compare as.length bs.length)) ∧
    ∀ a b : s.Carrier β × t.Carrier β,
      ((Shape.comparison c (.pair s t)).partialCmp a b).value =
        Comparison.firstVerdict [((s.comparison c).partialCmp a.1 b.1).value,
          ((t.comparison c).partialCmp a.2 b.2).value] .eq := by
  have hs := agrees_comparison h s
  have hbare := agrees_comparison h s.erase
  refine ⟨?operators, ?start, ?hash, ?lists, ?pairs⟩
  case operators =>
    intro a b op
    refine (keptBy_strip h s).ask hs hbare a b ?_ op
    cases r with
    | none => rfl
    | some r =>
      simp only [Operator.ask, Option.map_some, ranking_strip r s a b]
  case start => exact (keptBy_strip h s).startsWith hs hbare
  case hash => exact feed_strip f s
  case lists => exact Comparison.value_listCmp (s.comparison c)
  case pairs => exact Comparison.value_pairCmp (s.comparison c) (t.comparison c)

/-- Flags that feed one byte each, and eight to a byte when they stand in a row. -/
def packedFlags : HashFeed Bool where
  one := HashFeed.bool.one
  many flags :=
    let packed := flags.foldr (fun flag rest => flag.toNat + 2 * rest) 0
    .silent (HashFeed.littleEndian ((flags.length + 7) / 8) packed)

/-- Flags compare in one way only, but two branded flags feed two bytes where the bare ones feed
one, so a list of the ones has another hash than a list of the others. -/
theorem branded_flags_are_not_packed :
    let c := Comparison.ofOrder (compare (α := Bool))
    let s : Shape := .list (.brand ⟨.named "Ready", .defaultField⟩ .base)
    let flags : s.Carrier Bool := [⟨true⟩, ⟨true⟩]
    c.Agrees ∧
      ((s.feed packedFlags).one flags).value = [2, 0, 0, 0, 0, 0, 0, 0, 1, 1] ∧
      ((s.erase.feed packedFlags).one (s.strip flags)).value = [2, 0, 0, 0, 0, 0, 0, 0, 3] ∧
      ((s.feed packedFlags).one flags).value ≠
        ((s.erase.feed packedFlags).one (s.strip flags)).value := by
  exact ⟨Comparison.agrees_derived _ _, by decide, by decide, by decide⟩

/-- Two lists of branded doubles, level at first: then a number meets one that is none, and
neither list is below the other, whatever comes after. Branded whole numbers feed in a list what
the bare ones feed. -/
theorem branded_doubles_without_an_order :
    let c := Double.capabilities.comparison
    let mark : Mark := ⟨.named "Metres", .defaultField⟩
    let s : Shape := .list (.pair (.brand mark .base) (.option (.brand mark (.brand mark .base))))
    let one : Double := ⟨0x3ff0000000000000⟩
    let nan : Double := ⟨0x7ff8000000000000⟩
    let a : s.Carrier Double := [(⟨one⟩, some ⟨⟨one⟩⟩), (⟨one⟩, some ⟨⟨one⟩⟩), (⟨one⟩, none)]
    let b : s.Carrier Double := [(⟨one⟩, some ⟨⟨one⟩⟩), (⟨one⟩, some ⟨⟨nan⟩⟩), (⟨nan⟩, none)]
    let numbers : Shape := .list (.brand mark .base)
    let w : Width := ⟨false, 8⟩
    let five : Whole w := ⟨5, by decide⟩
    let feed := Whole.feed w
    c.Agrees ∧
      s.strip b = [(one, some one), (one, some nan), (nan, none)] ∧
      ((s.comparison c).partialCmp a b).value = none ∧
      (Operator.ask (s.comparison c) none a b .lt).value =
        (Operator.ask (s.erase.comparison c) none (s.strip a) (s.strip b) .lt).value ∧
      numbers.hasBrandedList = true ∧ feed.Agrees ∧
      ((numbers.feed feed).one [⟨five⟩, ⟨five⟩]).value =
        ((numbers.erase.feed feed).one (numbers.strip [⟨five⟩, ⟨five⟩])).value := by
  intro c mark s one nan a b numbers w five feed
  have hagrees : c.Agrees := Comparison.agrees_derived _ _
  have hlaw := erasing_brands_changes_no_answer hagrees none (.ofOne fun _ => .silent []) s .base
  have horder : (Comparison.ofOrder (Whole.order (w := w))).Agrees := Comparison.agrees_derived _ _
  have hnumbers := erasing_brands_changes_no_answer horder none feed numbers .base
  exact ⟨hagrees, rfl, by decide +kernel, hlaw.1 a b .lt, rfl, Whole.agrees_feed w,
    hnumbers.2.2.1 (fun _ => Whole.agrees_feed w) [⟨five⟩, ⟨five⟩]⟩

end Shape

end NominalBrand
