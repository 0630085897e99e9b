-- The laws of numerals. The texts that write a number are told by a grammar:
-- digits after one sign or none, with as many zeros in front as one likes. Exactly
-- these are read, as long as the number lies within the bounds, and the text that
-- is written for a number is the one of them without a needless sign.
import NominalBrand.Numeral
import Mathlib.Data.List.Basic
import Mathlib.Data.List.Induction

namespace NominalBrand.Numeral

/-! ## What a text writes -/

/-- One or more ASCII digits, and the number that they are in base ten. -/
structure Digits (cs : List Char) (k : Nat) : Prop where
  nonempty : cs ≠ []
  digits : ∀ c ∈ cs, c.isDigit = true
  value : Nat.ofDigitChars 10 cs 0 = k

instance (cs : List Char) (k : Nat) : Decidable (Digits cs k) :=
  decidable_of_iff (cs ≠ [] ∧ cs.all Char.isDigit = true ∧ Nat.ofDigitChars 10 cs 0 = k)
    ⟨fun ⟨hne, hall, hk⟩ => ⟨hne, List.all_eq_true.mp hall, hk⟩,
      fun h => ⟨h.nonempty, List.all_eq_true.mpr h.digits, h.value⟩⟩

/-- The texts that write a whole number: digits, after one sign or none. -/
inductive Writes : List Char → Int → Prop
  | bare {cs : List Char} {k : Nat} : Digits cs k → Writes cs k
  | plus {cs : List Char} {k : Nat} : Digits cs k → Writes ('+' :: cs) k
  | minus {cs : List Char} {k : Nat} : Digits cs k → Writes ('-' :: cs) (-k)

/-- The shortest of the texts that write a number: neither a plus sign nor a zero stands first, save
for the digit that is zero itself. -/
inductive Canonical : List Char → Int → Prop
  | zero : Canonical ['0'] 0
  | positive {cs : List Char} {k : Nat} : Digits cs k → cs.head? ≠ some '0' → Canonical cs k
  | negative {cs : List Char} {k : Nat} : Digits cs k → cs.head? ≠ some '0' →
      Canonical ('-' :: cs) (-k)

variable {c : Char} {cs : List Char} {k : Nat} {m n : Int}

theorem head?_ne {s : Char} (h : ∀ rest, cs = s :: rest → False) : cs.head? ≠ some s := by
  intro hhead
  obtain ⟨rest, hrest⟩ := List.head?_eq_some_iff.mp hhead
  exact h rest hrest

theorem Digits.head_ne (h : Digits cs k) {s : Char} (hs : s.isDigit = false) :
    cs.head? ≠ some s := by
  intro hhead
  rw [h.digits s (List.mem_of_head? hhead)] at hs
  contradiction

theorem not_digits_nil : ¬ Digits [] k := fun h => h.nonempty rfl

theorem not_writes_nil : ¬ Writes [] n := by
  rintro ⟨h⟩
  exact not_digits_nil h

theorem writes_plus_iff : Writes ('+' :: cs) n ↔ ∃ k : Nat, n = k ∧ Digits cs k := by
  constructor
  · rintro (h | h)
    · exact absurd rfl (h.head_ne (by decide))
    · exact ⟨_, rfl, h⟩
  · rintro ⟨k, rfl, h⟩
    exact .plus h

theorem writes_minus_iff : Writes ('-' :: cs) n ↔ ∃ k : Nat, n = -k ∧ Digits cs k := by
  constructor
  · rintro (h | h | h)
    · exact absurd rfl (h.head_ne (by decide))
    · exact ⟨_, rfl, h⟩
  · rintro ⟨k, rfl, h⟩
    exact .minus h

theorem writes_bare_iff (hplus : cs.head? ≠ some '+') (hminus : cs.head? ≠ some '-') :
    Writes cs n ↔ ∃ k : Nat, n = k ∧ Digits cs k := by
  constructor
  · rintro (h | h | h)
    · exact ⟨_, rfl, h⟩
    · exact absurd rfl hplus
    · exact absurd rfl hminus
  · rintro ⟨k, rfl, h⟩
    exact .bare h

/-- A number above zero is written without a sign or with a plus sign. -/
theorem writes_iff_of_pos (hn : 0 < n) :
    Writes cs n ↔ ∃ ds k, Digits ds k ∧ (cs = ds ∨ cs = '+' :: ds) ∧ n = k := by
  constructor
  · rintro (h | h | h)
    · exact ⟨_, _, h, Or.inl rfl, rfl⟩
    · exact ⟨_, _, h, Or.inr rfl, rfl⟩
    · omega
  · rintro ⟨ds, k, h, rfl | rfl, rfl⟩
    · exact .bare h
    · exact .plus h

/-- A text writes one number at most. -/
theorem Writes.unique (hm : Writes cs m) (hn : Writes cs n) : m = n := by
  cases hm with
  | bare h =>
    obtain ⟨k, rfl, hk⟩ := (writes_bare_iff (h.head_ne (by decide)) (h.head_ne (by decide))).mp hn
    rw [← h.value, ← hk.value]
  | plus h =>
    obtain ⟨k, rfl, hk⟩ := writes_plus_iff.mp hn
    rw [← h.value, ← hk.value]
  | minus h =>
    obtain ⟨k, rfl, hk⟩ := writes_minus_iff.mp hn
    rw [← h.value, ← hk.value]

/-! ## Reading digits -/

theorem digit_range (h : c.isDigit = true) : 48 ≤ c.toNat ∧ c.toNat ≤ 57 :=
  Char.isDigit_iff_toNat.mp h

theorem digit_lt_ten (h : c.isDigit = true) : c.toNat - '0'.toNat < 10 := by
  have hrange := digit_range h
  show c.toNat - 48 < 10
  omega

theorem digit?_of_isDigit (h : c.isDigit = true) : digit? c = some (c.toNat - '0'.toNat) :=
  if_pos (Char.isDigit_iff_toNat.mp h)

theorem digit?_of_not_isDigit (h : ¬ c.isDigit = true) : digit? c = none :=
  if_neg fun hrange => h (Char.isDigit_iff_toNat.mpr hrange)

theorem le_ofDigitChars (cs : List Char) (v : Nat) : v ≤ Nat.ofDigitChars 10 cs v := by
  rw [Nat.ofDigitChars_eq_ofDigitChars_zero]
  have hscaled : v ≤ 10 ^ cs.length * v := Nat.le_mul_of_pos_left v (Nat.pow_pos (by omega))
  omega

/-- Digits are read to their value, which is the largest of the partial values, so it is enough
that the value itself lies within the bound. -/
theorem readUp_eq_ok_iff {high : Int} {v : Nat} (hv : (v : Int) ≤ high) :
    readUp high v cs = .ok n ↔
      (∀ c ∈ cs, c.isDigit = true) ∧ n = Nat.ofDigitChars 10 cs v ∧ n ≤ high := by
  induction cs generalizing v with
  | nil =>
    simp only [readUp, Except.ok.injEq, List.not_mem_nil, Nat.ofDigitChars_nil]
    constructor
    · rintro rfl
      exact ⟨fun _ h => absurd h id, rfl, hv⟩
    · exact fun h => h.2.1.symm
  | cons c cs ih =>
    rw [List.forall_mem_cons, Nat.ofDigitChars_cons]
    by_cases hc : c.isDigit = true
    · generalize hd : c.toNat - '0'.toNat = d
      have hnext : (v : Int) * 10 + d = (10 * v + d : Nat) := by omega
      simp only [readUp, digit?_of_isDigit hc, hd, hnext, hc, true_and]
      split
      · next hfits => exact ih hfits
      · next hfits =>
        have hgrows := le_ofDigitChars cs (10 * v + d)
        constructor
        · intro h
          contradiction
        · rintro ⟨_, rfl, hle⟩
          omega
    · simp only [readUp, digit?_of_not_isDigit hc]
      constructor
      · intro h
        contradiction
      · exact fun h => absurd h.1.1 hc

/-- Reading downwards is reading upwards in the mirror. -/
theorem readDown_neg (low value : Int) :
    readDown low (-value) cs = .ok (-n) ↔ readUp (-low) value cs = .ok n := by
  induction cs generalizing value with
  | nil => simp [readDown, readUp]
  | cons c cs ih =>
    unfold readDown readUp
    cases digit? c with
    | none => simp
    | some d =>
      have hnext : -value * 10 - d = -(value * 10 + d) := by omega
      simp only [hnext]
      by_cases hfits : value * 10 + d ≤ -low
      · rw [if_pos (by omega), if_pos hfits]
        exact ih (value * 10 + d)
      · rw [if_neg (by omega), if_neg hfits]
        simp

/-! ## Reading a text -/

/-- Reading watches the bound on the side of the sign; no number of that sign passes the other. -/
theorem readUp_zero {low high : Int} (hlow : low ≤ 0) (hhigh : 0 ≤ high) (hcs : cs ≠ []) :
    readUp high 0 cs = .ok n ↔ (∃ k : Nat, n = k ∧ Digits cs k) ∧ low ≤ n ∧ n ≤ high := by
  have h : readUp high (0 : Nat) cs = .ok n ↔ _ := readUp_eq_ok_iff hhigh
  rw [Int.natCast_zero] at h
  rw [h]
  constructor
  · rintro ⟨hdigits, rfl, hle⟩
    exact ⟨⟨_, rfl, hcs, hdigits, rfl⟩, by omega, hle⟩
  · rintro ⟨⟨k, rfl, hk⟩, _, hle⟩
    exact ⟨hk.digits, by rw [hk.value], hle⟩

theorem readDown_zero {low high : Int} (hlow : low ≤ 0) (hhigh : 0 ≤ high) (hcs : cs ≠ []) :
    readDown low 0 cs = .ok n ↔ (∃ k : Nat, n = -k ∧ Digits cs k) ∧ low ≤ n ∧ n ≤ high := by
  have h : readDown low (-0) cs = .ok (- -n) ↔ _ := readDown_neg low 0
  rw [Int.neg_zero, Int.neg_neg] at h
  have hmirrored : -high ≤ 0 := by omega
  rw [h, readUp_zero hmirrored (by omega) hcs]
  constructor
  · rintro ⟨⟨k, hk, hdigits⟩, hrange⟩
    exact ⟨⟨k, by omega, hdigits⟩, by omega⟩
  · rintro ⟨⟨k, hk, hdigits⟩, hrange⟩
    exact ⟨⟨k, by omega, hdigits⟩, by omega⟩

/-- Exactly the texts that write a number within the bounds are read, and as that number. -/
theorem read_eq_ok_iff {b : Bounds} (hlow : b.low ≤ 0) (hhigh : 0 ≤ b.high) :
    read b cs = .ok n ↔ Writes cs n ∧ b.low ≤ n ∧ n ≤ b.high := by
  fun_cases read b cs with
  | case1 =>
    simp [not_writes_nil]
  | case2 =>
    simp [writes_plus_iff, not_digits_nil]
  | case3 =>
    simp [writes_minus_iff, not_digits_nil]
  | case4 cs hcs =>
    rw [readUp_zero hlow hhigh hcs, writes_plus_iff]
  | case5 cs hcs =>
    rw [readDown_zero hlow hhigh hcs, writes_minus_iff]
  | case6 _ hcs _ _ hplus hminus =>
    rw [readUp_zero hlow hhigh hcs, writes_bare_iff (head?_ne hplus) (head?_ne hminus)]

/-! ## The written text -/

theorem digitChar_of_isDigit (h : c.isDigit = true) : Nat.digitChar (c.toNat - '0'.toNat) = c := by
  have hrange := digit_range h
  apply Char.toNat_inj.mp
  rw [Nat.toNat_digitChar_of_lt_ten (digit_lt_ten h)]
  show 48 + (c.toNat - 48) = c.toNat
  omega

theorem Digits.pos (h : Digits cs k) (hzero : cs.head? ≠ some '0') : 0 < k := by
  cases cs with
  | nil => exact absurd h not_digits_nil
  | cons c cs =>
    have hgrows := le_ofDigitChars cs (10 * 0 + (c.toNat - '0'.toNat))
    rw [← Nat.ofDigitChars_cons, h.value] at hgrows
    have hdigit := digitChar_of_isDigit (h.digits c List.mem_cons_self)
    have hc : c.toNat - '0'.toNat ≠ 0 := by
      intro h0
      rw [h0] at hdigit
      exact hzero (by rw [← hdigit]; rfl)
    omega

/-- Digits that do not start with a zero are the digits that are written for their value. -/
theorem Digits.eq_toDigits (h : Digits cs k) (hzero : cs.head? ≠ some '0') :
    cs = Nat.toDigits 10 k := by
  induction cs using List.reverseRecOn generalizing k with
  | nil => exact absurd h not_digits_nil
  | append_singleton cs d ih =>
    have hd : d.isDigit = true := h.digits d (by simp)
    have hvalue := digit_lt_ten hd
    have hlast : [d] = Nat.toDigits 10 (d.toNat - '0'.toNat) := by
      rw [Nat.toDigits_of_lt_base hvalue, digitChar_of_isDigit hd]
    have hk := h.value
    rw [Nat.ofDigitChars_append, Nat.ofDigitChars_cons, Nat.ofDigitChars_nil] at hk
    by_cases hcs : cs = []
    · subst hcs
      rw [← hk, Nat.ofDigitChars_nil, Nat.mul_zero, Nat.zero_add]
      exact hlast
    · have hinit : Digits cs (Nat.ofDigitChars 10 cs 0) :=
        ⟨hcs, fun c hc => h.digits c (List.mem_append_left _ hc), rfl⟩
      rw [List.head?_append_of_ne_nil _ hcs] at hzero
      rw [← hk, ← Nat.toDigits_append_toDigits (by decide) (hinit.pos hzero) hvalue, ← hlast,
        ← ih hinit hzero]

theorem digits_toDigits (k : Nat) : Digits (Nat.toDigits 10 k) k where
  nonempty := Nat.toDigits_ne_nil
  digits _ hc := Nat.isDigit_of_mem_toDigits (by decide) (by decide) hc
  value := Nat.ofDigitChars_ten_toDigits

theorem head?_toDigits (hk : 0 < k) : (Nat.toDigits 10 k).head? ≠ some '0' := by
  induction k using Nat.strongRecOn with
  | ind k ih =>
    by_cases hsmall : k < 10
    · rw [Nat.toDigits_of_lt_base hsmall]
      simp only [List.head?_cons, ne_eq, Option.some.injEq, Nat.digitChar_eq_zero]
      omega
    · rw [Nat.toDigits_of_base_le (by decide) (by omega),
        List.head?_append_of_ne_nil _ Nat.toDigits_ne_nil]
      exact ih (k / 10) (by omega) (by omega)

theorem digits_neg (hk : 0 < k) : digits (-k) = '-' :: Nat.toDigits 10 k := by
  obtain ⟨j, rfl⟩ := Nat.exists_eq_succ_of_ne_zero (Nat.ne_of_gt hk)
  rfl

/-- The one text in the shortest form is the text that is written. -/
theorem canonical_iff : Canonical cs n ↔ cs = digits n := by
  constructor
  · rintro (_ | ⟨h, hzero⟩ | ⟨h, hzero⟩)
    · rfl
    · exact h.eq_toDigits hzero
    · rw [digits_neg (h.pos hzero), ← h.eq_toDigits hzero]
  · rintro rfl
    rcases n with (_ | k) | k
    · exact .zero
    · exact .positive (digits_toDigits (k + 1)) (head?_toDigits k.succ_pos)
    · exact .negative (digits_toDigits (k + 1)) (head?_toDigits k.succ_pos)

/-! ## Zeros in front -/

/-- The decimal text of a number with more zeros before its digits. -/
def padded (zeros : Nat) : Int → List Char
  | .ofNat k => List.replicate zeros '0' ++ Nat.toDigits 10 k
  | .negSucc k => '-' :: (List.replicate zeros '0' ++ Nat.toDigits 10 (k + 1))

theorem padded_zero (n : Int) : padded 0 n = digits n := by
  cases n <;> rfl

theorem Digits.padded (h : Digits cs k) (zeros : Nat) :
    Digits (List.replicate zeros '0' ++ cs) k where
  nonempty := List.append_ne_nil_of_right_ne_nil _ h.nonempty
  digits c hc := by
    rcases List.mem_append.mp hc with hzero | hdigit
    · rw [List.eq_of_mem_replicate hzero]
      decide
    · exact h.digits c hdigit
  value := by rw [Nat.ofDigitChars_append, Nat.ofDigitChars_replicate_zero, Nat.mul_zero, h.value]

theorem writes_padded (zeros : Nat) (n : Int) : Writes (padded zeros n) n := by
  cases n with
  | ofNat k => exact .bare ((digits_toDigits k).padded zeros)
  | negSucc k => exact .minus ((digits_toDigits (k + 1)).padded zeros)

theorem writes_digits (n : Int) : Writes (digits n) n := padded_zero n ▸ writes_padded 0 n

/-- Different numbers are written differently. -/
theorem write_inj (h : write m = write n) : m = n := by
  have hdigits : digits m = digits n := String.ofList_injective h
  exact (writes_digits m).unique (hdigits ▸ writes_digits n)

end NominalBrand.Numeral
