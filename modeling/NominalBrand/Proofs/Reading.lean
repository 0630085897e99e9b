-- The laws of reading positive numbers. A text is told apart from the blank
-- characters around it, and what is left decides alone: the number that it writes
-- is sent to the check once, and a text that writes none within 64 bits is refused
-- before the check, so that nothing is seen and nothing is logged.
import NominalBrand.Reading
import NominalBrand.Proofs.EventLog
import NominalBrand.Proofs.Numerals
import Mathlib.Algebra.Group.Int.Defs
import Mathlib.Algebra.Group.Nat.Defs
import Mathlib.Data.List.DropRight

namespace NominalBrand

/-! ## Blank characters around a text -/

namespace Blank

/-- Blank characters only. -/
def AllBlank (cs : List Char) : Prop := ∀ c ∈ cs, isBlank c = true

instance (cs : List Char) : Decidable (AllBlank cs) :=
  decidable_of_iff (cs.all isBlank = true) List.all_eq_true

/-- What is left of a text when the blank characters at its two ends are taken away. -/
structure Trimmed (cs t : List Char) : Prop where
  around : ∃ before after, cs = before ++ t ++ after ∧ AllBlank before ∧ AllBlank after
  first : ∀ c, t.head? = some c → isBlank c = false
  last : ∀ c, t.getLast? = some c → isBlank c = false

theorem allBlank_takeWhile (cs : List Char) : AllBlank (cs.takeWhile isBlank) :=
  List.all_eq_true.mp List.all_takeWhile

theorem head?_dropWhile {cs : List Char} {c : Char} (h : (cs.dropWhile isBlank).head? = some c) :
    isBlank c = false := by
  have hnot := List.head?_dropWhile_not isBlank cs
  rw [h] at hnot
  exact hnot

theorem AllBlank.dropWhile_append {before t : List Char} (h : AllBlank before)
    (ht : ∀ c, t.head? = some c → isBlank c = false) : (before ++ t).dropWhile isBlank = t := by
  rw [List.dropWhile_append_of_pos h]
  cases t with
  | nil => rfl
  | cons c t => exact List.dropWhile_cons_of_neg (by simp [ht c rfl])

theorem AllBlank.rdropWhile_append {t after : List Char} (h : AllBlank after)
    (ht : ∀ c, t.getLast? = some c → isBlank c = false) : (t ++ after).rdropWhile isBlank = t := by
  have hreversed : AllBlank after.reverse := fun c hc => h c (List.mem_reverse.mp hc)
  unfold List.rdropWhile
  rw [List.reverse_append, hreversed.dropWhile_append, List.reverse_reverse]
  intro c hc
  exact ht c (List.head?_reverse.symm.trans hc)

theorem trim_eq (cs : List Char) : trim cs = (cs.dropWhile isBlank).rdropWhile isBlank := rfl

theorem trimmed_trim (cs : List Char) : Trimmed cs (trim cs) := by
  have hback : trim cs ++ (cs.dropWhile isBlank).rtakeWhile isBlank = cs.dropWhile isBlank :=
    List.rdropWhile_append_rtakeWhile
  refine ⟨⟨cs.takeWhile isBlank, (cs.dropWhile isBlank).rtakeWhile isBlank, ?around,
    allBlank_takeWhile cs, fun c hc => ?after⟩, fun c hc => ?first, fun c hc => ?last⟩
  case around => rw [List.append_assoc, hback, List.takeWhile_append_dropWhile]
  case after => exact List.mem_rtakeWhile_imp hc
  case first =>
    apply @head?_dropWhile cs
    rw [← hback, List.head?_append, hc]
    rfl
  case last =>
    apply head?_dropWhile
    rw [← List.getLast?_reverse]
    exact hc

/-- Taking the blank characters away leaves one text only. -/
theorem Trimmed.eq_trim {cs t : List Char} (h : Trimmed cs t) : trim cs = t := by
  obtain ⟨before, after, rfl, hbefore, hafter⟩ := h.around
  rw [trim_eq]
  by_cases ht : t = []
  · subst ht
    have hall : (before ++ [] ++ after).dropWhile isBlank = [] := by
      rw [List.append_nil, List.dropWhile_append_of_pos hbefore]
      exact List.dropWhile_eq_nil_iff.mpr hafter
    rw [hall]
    rfl
  · rw [List.append_assoc, hbefore.dropWhile_append, hafter.rdropWhile_append h.last]
    intro c hc
    rw [List.head?_append_of_ne_nil _ ht] at hc
    exact h.first c hc

theorem trimmed_iff {cs t : List Char} : Trimmed cs t ↔ t = trim cs := by
  constructor
  · exact fun h => h.eq_trim.symm
  · rintro rfl
    exact trimmed_trim cs

/-- A text that writes a number holds no blank character, so any that are put around it are what
is taken away. -/
theorem not_isBlank_of_writes {cs : List Char} {n : Int} (h : Numeral.Writes cs n) {c : Char}
    (hc : c ∈ cs) : isBlank c = false := by
  have hdigits : ∀ {ds k}, Numeral.Digits ds k → c ∈ ds → isBlank c = false := by
    intro ds k hds hmem
    have hrange := Numeral.digit_range (hds.digits c hmem)
    simp only [isBlank, ranges, List.any_cons, List.any_nil, Bool.or_eq_false_iff,
      Bool.and_eq_false_iff, decide_eq_false_iff_not, and_true]
    omega
  cases h with
  | bare h => exact hdigits h hc
  | plus h =>
    rcases List.mem_cons.mp hc with rfl | hc
    · decide
    · exact hdigits h hc
  | minus h =>
    rcases List.mem_cons.mp hc with rfl | hc
    · decide
    · exact hdigits h hc

theorem trim_around {before t after : List Char} {n : Int} (ht : Numeral.Writes t n)
    (hbefore : AllBlank before) (hafter : AllBlank after) : trim (before ++ t ++ after) = t :=
  Trimmed.eq_trim ⟨⟨before, after, rfl, hbefore, hafter⟩,
    fun _ hc => not_isBlank_of_writes ht (List.mem_of_head? hc),
    fun _ hc => not_isBlank_of_writes ht (List.mem_of_getLast? hc)⟩

end Blank

/-! ## Sending the number to the check -/

namespace Reading

open Numeral (Writes Digits)

variable {tracing : Bool} {text : String} {w : World (Ledger Int)} {n : Int}

/-- The numbers of 64 bits, one of which is the sign. -/
def InRange (n : Int) : Prop := -2 ^ 63 ≤ n ∧ n ≤ 2 ^ 63 - 1

instance (n : Int) : Decidable (InRange n) := inferInstanceAs (Decidable (_ ∧ _))

/-- What reading a number comes to: above zero it is branded, and any other is refused. -/
def decision (n : Int) : Outcome ReadFault Datum (Brand positiveBrander.mark Int) :=
  if 0 < n then .accepted ⟨n⟩ else .rejected (.refused (.nonPositive n))

/-- The event of checking a number. -/
def report (n : Int) : Event := ⟨(positiveMark.brandOf positive.base).name, decide (0 < n)⟩

theorem read_eq_ok_iff {t : List Char} :
    Numeral.read (.signed 64) t = .ok n ↔ Writes t n ∧ InRange n :=
  Numeral.read_eq_ok_iff (by decide) (by decide)

theorem judge_positive (m : Memory) (n : Int) :
    positive.rule.judge m (positive.view n) =
      if 0 < n then .accepted .null else .rejected (.nonPositive n) := by
  show Rule.require (.nonPositive n) (decide (0 < n)) = _
  simp [Rule.require]

/-- The check of positive numbers runs its validator once and reports once. -/
theorem check_positive (tracing : Bool) (n : Int) (w : World (Ledger Int)) :
    ∃ w', positiveBrander.check positive.roster tracing n w =
        (if 0 < n then .accepted () else .rejected (.nonPositive n), w') ∧
      w'.state.seen = w.state.seen ++ [n] ∧
      w'.events = if tracing then w.events ++ [report n] else w.events := by
  let h : Handle := ⟨0, false⟩
  let o := positive.rule.judge (w.state.memory h) (positive.view n)
  let s := w.state.note h n ((w.state.memory h).after (positive.view n).form o)
  have ho : o = if 0 < n then .accepted .null else .rejected (.nonPositive n) := judge_positive _ n
  refine ⟨World.record ⟨s, w.events⟩ tracing (positiveMark.brandOf positive.base).name o,
    ?outcome, ?seen, ?events⟩
  case outcome =>
    have hverdict : o.verdict = if 0 < n then .accepted () else .rejected (.nonPositive n) := by
      rw [ho]
      split <;> rfl
    exact Prod.ext hverdict rfl
  case seen =>
    rw [World.state_record]
    rfl
  case events =>
    rw [World.record_eq, ho]
    unfold report
    by_cases hpos : 0 < n
    · simp only [hpos, if_true, decide_true]
      rfl
    · simp only [hpos, if_false, decide_false]
      rfl

/-- A text that writes a number of 64 bits sends it to the check once. -/
theorem readPositive_of_writes (h : Writes (Blank.trim text.toList) n) (hn : InRange n)
    (tracing : Bool) (w : World (Ledger Int)) :
    ∃ w', readPositive tracing text w = (decision n, w') ∧
      w'.state.seen = w.state.seen ++ [n] ∧
      w'.events = if tracing then w.events ++ [report n] else w.events := by
  obtain ⟨w', hcheck, hseen, hevents⟩ := check_positive tracing n w
  refine ⟨w', ?_, hseen, hevents⟩
  unfold readPositive
  rw [read_eq_ok_iff.mpr ⟨h, hn⟩]
  unfold decision
  simp only [asFault, Brander.brand, Check.brand_apply, hcheck]
  split <;> rfl

/-- A text that writes none is refused, and nothing is touched. -/
theorem readPositive_of_not_writes (h : ¬ ∃ n, Writes (Blank.trim text.toList) n ∧ InRange n)
    (tracing : Bool) (w : World (Ledger Int)) :
    ∃ fault, readPositive tracing text w = (.rejected (.numeral fault), w) := by
  rcases hread : Numeral.read (.signed 64) (Blank.trim text.toList) with fault | n
  · refine ⟨fault, ?_⟩
    unfold readPositive
    rw [hread]
    rfl
  · exact absurd ⟨n, read_eq_ok_iff.mp hread⟩ h

theorem outcome_of_writes (h : Writes (Blank.trim text.toList) n) (hn : InRange n)
    (tracing : Bool) (w : World (Ledger Int)) : (readPositive tracing text w).1 = decision n := by
  obtain ⟨w', hread, _⟩ := readPositive_of_writes h hn tracing w
  rw [hread]

theorem decision_of_pos (h : 0 < n) : decision n = .accepted ⟨n⟩ := if_pos h

theorem decision_of_nonpos (h : n ≤ 0) : decision n = .rejected (.refused (.nonPositive n)) :=
  if_neg (by omega)

/-- How reading can end: the number is branded, or the check refuses it, or there is none. -/
theorem outcome_cases (tracing : Bool) (text : String) (w : World (Ledger Int)) :
    (∃ n, (Writes (Blank.trim text.toList) n ∧ InRange n ∧ 0 < n) ∧
      (readPositive tracing text w).1 = .accepted ⟨n⟩) ∨
    (∃ n, (Writes (Blank.trim text.toList) n ∧ InRange n ∧ n ≤ 0) ∧
      (readPositive tracing text w).1 = .rejected (.refused (.nonPositive n))) ∨
    ((¬ ∃ n, Writes (Blank.trim text.toList) n ∧ InRange n) ∧
      ∃ fault, readPositive tracing text w = (.rejected (.numeral fault), w)) := by
  by_cases h : ∃ n, Writes (Blank.trim text.toList) n ∧ InRange n
  · obtain ⟨n, hwrites, hn⟩ := h
    have ho := outcome_of_writes hwrites hn tracing w
    rcases Int.lt_or_le 0 n with hpos | hpos
    · exact Or.inl ⟨n, ⟨hwrites, hn, hpos⟩, ho.trans (decision_of_pos hpos)⟩
    · exact Or.inr (Or.inl ⟨n, ⟨hwrites, hn, hpos⟩, ho.trans (decision_of_nonpos hpos)⟩)
  · exact Or.inr (Or.inr ⟨h, readPositive_of_not_writes h tracing w⟩)

theorem accepted_iff :
    (readPositive tracing text w).1 = .accepted ⟨n⟩ ↔
      Writes (Blank.trim text.toList) n ∧ InRange n ∧ 0 < n := by
  constructor
  · intro ho
    rcases outcome_cases tracing text w with ⟨m, hm, hend⟩ | ⟨m, _, hend⟩ | ⟨_, fault, hend⟩ <;>
      rw [hend] at ho
    · cases ho
      exact hm
    · contradiction
    · contradiction
  · rintro ⟨hwrites, hn, hpos⟩
    exact (outcome_of_writes hwrites hn tracing w).trans (decision_of_pos hpos)

/-- The check refuses, for a cause that is told with these words. -/
def RefusedWith (message : String)
    (o : Outcome ReadFault Datum (Brand positiveBrander.mark Int)) : Prop :=
  ∃ cause, o = .rejected (.refused cause) ∧ cause.document = .text message

theorem refused_iff :
    RefusedWith ("Non-positive: " ++ Numeral.write n) (readPositive tracing text w).1 ↔
      Writes (Blank.trim text.toList) n ∧ InRange n ∧ n ≤ 0 := by
  constructor
  · rintro ⟨cause, ho, hcause⟩
    rcases outcome_cases tracing text w with ⟨m, _, hend⟩ | ⟨m, hm, hend⟩ | ⟨_, fault, hend⟩ <;>
      rw [hend] at ho
    · contradiction
    · cases ho
      have hmessage : "Non-positive: " ++ Numeral.write m = "Non-positive: " ++ Numeral.write n :=
        Datum.text.inj hcause
      obtain rfl := Numeral.write_inj ((String.append_right_inj _).mp hmessage)
      exact hm
    · cases ho
  · rintro ⟨hwrites, hn, hpos⟩
    exact ⟨_, (outcome_of_writes hwrites hn tracing w).trans (decision_of_nonpos hpos), rfl⟩

theorem fault_iff :
    (∃ fault, (readPositive tracing text w).1 = .rejected (.numeral fault)) ↔
      ¬ ∃ n, Writes (Blank.trim text.toList) n ∧ InRange n := by
  constructor
  · rintro ⟨fault, ho⟩
    rcases outcome_cases tracing text w with ⟨m, _, hend⟩ | ⟨m, _, hend⟩ | ⟨hnone, _⟩
    · rw [hend] at ho
      contradiction
    · rw [hend] at ho
      cases ho
    · exact hnone
  · intro hnone
    obtain ⟨fault, hend⟩ := readPositive_of_not_writes hnone tracing w
    exact ⟨fault, by rw [hend]⟩

/-! ## The law -/

/-- A text is read by what is left of it between its blank ends. If that is digits after one plus
sign or none, and their value lies above zero and within 64 bits, the value is branded. If it writes
another number of 64 bits, the check refuses this number and tells it in its shortest form. In all
other cases the numeral is at fault, nothing is seen and nothing is logged. So a number of 64 bits
in decimal, with zeros in front and blank characters around it, is branded or refused by its sign
alone. -/
theorem a_text_is_read_as_the_number_it_writes (tracing : Bool) (text : String)
    (w : World (Ledger Int)) :
    let t := Blank.trim text.toList
    let o := (readPositive tracing text w).1
    let w' := (readPositive tracing text w).2
    (∀ t', Blank.Trimmed text.toList t' ↔ t' = t) ∧
    (∀ n, o = .accepted ⟨n⟩ ↔
      ∃ ds k, Digits ds k ∧ (t = ds ∨ t = '+' :: ds) ∧ n = k ∧ 1 ≤ n ∧ n ≤ 2 ^ 63 - 1) ∧
    (∀ m, RefusedWith ("Non-positive: " ++ Numeral.write m) o ↔
      Writes t m ∧ -2 ^ 63 ≤ m ∧ m ≤ 0) ∧
    (∀ m ds, Numeral.Canonical ds m ↔ ds = (Numeral.write m).toList) ∧
    ((∃ fault, o = .rejected (.numeral fault)) ↔ ¬ ∃ n, Writes t n ∧ InRange n) ∧
    ((∃ fault, o = .rejected (.numeral fault)) → w' = w) ∧
    (∀ n, Writes t n → InRange n → w'.state.seen = w.state.seen ++ [n] ∧
      w'.events = if tracing then w.events ++ [report n] else w.events) ∧
    ∀ n zeros before after, InRange n → Blank.AllBlank before → Blank.AllBlank after →
      text.toList = before ++ Numeral.padded zeros n ++ after → o = decision n := by
  intro t o w'
  refine ⟨fun t' => Blank.trimmed_iff, fun n => ?accepted, fun m => ?refused,
    fun m ds => ?shortest, fault_iff, fun hfault => ?untouched,
    fun n hwrites hn => ?checked, fun n zeros before after hn hbefore hafter htext => ?padded⟩
  case accepted =>
    rw [accepted_iff]
    constructor
    · rintro ⟨hwrites, hn, hpos⟩
      obtain ⟨ds, k, hds, ht, hk⟩ := (Numeral.writes_iff_of_pos hpos).mp hwrites
      exact ⟨ds, k, hds, ht, hk, hpos, hn.2⟩
    · rintro ⟨ds, k, hds, ht, hk, hpos, hle⟩
      have hlow : -2 ^ 63 ≤ n := by omega
      exact ⟨(Numeral.writes_iff_of_pos hpos).mpr ⟨ds, k, hds, ht, hk⟩, ⟨hlow, hle⟩, hpos⟩
  case refused =>
    rw [refused_iff]
    constructor
    · rintro ⟨hwrites, hn, hle⟩
      exact ⟨hwrites, hn.1, hle⟩
    · rintro ⟨hwrites, hlow, hle⟩
      have hhigh : m ≤ 2 ^ 63 - 1 := by omega
      exact ⟨hwrites, ⟨hlow, hhigh⟩, hle⟩
  case shortest =>
    rw [Numeral.write, String.toList_ofList]
    exact Numeral.canonical_iff
  case untouched =>
    obtain ⟨fault, hread⟩ := readPositive_of_not_writes (fault_iff.mp hfault) tracing w
    exact congrArg Prod.snd hread
  case checked =>
    obtain ⟨w₁, hread, hseen, hevents⟩ := readPositive_of_writes hwrites hn tracing w
    have hw : w' = w₁ := congrArg Prod.snd hread
    rw [hw]
    exact ⟨hseen, hevents⟩
  case padded =>
    have hwrites := Numeral.writes_padded zeros n
    have ht : Blank.trim text.toList = Numeral.padded zeros n := by
      rw [htext]
      exact Blank.trim_around hwrites hbefore hafter
    exact outcome_of_writes (ht ▸ hwrites) hn tracing w

/-- Seven with a plus sign and zeros between blank characters is branded, zero with a minus sign is
refused as zero, a minus sign and zeros leave the check of minus three as it is, and the first
number above the 64 bits never reaches the check. -/
theorem zeros_and_blanks_are_no_part_of_a_number :
    let start : World (Ledger Int) := Session.start
    (readPositive true "\u3000+007\u0085" start).1 = .accepted ⟨7⟩ ∧
      RefusedWith "Non-positive: 0" (readPositive true " -00\t" start).1 ∧
      (readPositive true "\n-0003 " start).1 = decision (-3) ∧
      (readPositive true "\n-0003 " start).2.state.seen = [-3] ∧
      (readPositive true "\n-0003 " start).2.events = [report (-3)] ∧
      (∃ fault, (readPositive true "9223372036854775808" start).1 = .rejected (.numeral fault)) ∧
      (readPositive true "9223372036854775808" start).2 = start := by
  intro start
  obtain ⟨_, hseven, _⟩ :=
    a_text_is_read_as_the_number_it_writes true "\u3000+007\u0085" start
  obtain ⟨_, _, hzero, _⟩ := a_text_is_read_as_the_number_it_writes true " -00\t" start
  obtain ⟨_, _, _, _, _, _, hchecked, hpadded⟩ :=
    a_text_is_read_as_the_number_it_writes true "\n-0003 " start
  obtain ⟨_, _, _, _, hfault, huntouched, _⟩ :=
    a_text_is_read_as_the_number_it_writes true "9223372036854775808" start
  have hseventrim : Blank.trim "\u3000+007\u0085".toList = ['+', '0', '0', '7'] := by
    decide +kernel
  have hzerotrim : Blank.trim " -00\t".toList = ['-', '0', '0'] := by decide +kernel
  have hthreetrim : Blank.trim "\n-0003 ".toList = Numeral.padded 3 (-3) := by decide +kernel
  have hwrites : Writes (Blank.trim "\n-0003 ".toList) (-3) := by
    rw [hthreetrim]
    exact Numeral.writes_padded 3 (-3)
  have hthree : InRange (-3) := by decide
  obtain ⟨hseen, hevents⟩ := hchecked (-3) hwrites hthree
  have hsevens : Digits ['0', '0', '7'] 7 := by decide
  have hzeros : Digits ['0', '0'] 0 := by decide
  have hlarge : Writes (Blank.trim "9223372036854775808".toList) (2 ^ 63 : Nat) :=
    .bare (by decide +kernel)
  have hrefused : RefusedWith "Non-positive: 0" (readPositive true " -00\t" start).1 :=
    (hzero 0).mpr ⟨hzerotrim ▸ .minus hzeros, by decide, by decide⟩
  have hnone := hfault.mpr ?large
  · exact ⟨(hseven 7).mpr ⟨_, 7, hsevens, Or.inr hseventrim, rfl, by decide, by decide⟩, hrefused,
      hpadded (-3) 3 ['\n'] [' '] hthree (by decide) (by decide) rfl, hseen, hevents,
      hnone, huntouched hnone⟩
  case large =>
    rintro ⟨n, hn, hrange⟩
    obtain rfl := hn.unique hlarge
    exact absurd hrange (by decide)

end Reading

end NominalBrand
