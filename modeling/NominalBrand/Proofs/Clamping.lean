-- The laws of clamping brands. Values that are level may still look different,
-- so it counts which value comes back: clamping keeps a value that is level with
-- a bound, while the way by the later and the earlier of two values puts the
-- lower bound in its place.
import NominalBrand.Clamp
import NominalBrand.Proofs.Sorting

namespace NominalBrand

variable {α β μ : Type}

namespace Sorting

/-! ## Clamping by a plain order -/

/-- The value, or the bound that it passes. -/
def clamped (cmp : α → α → Ordering) (lo hi v : α) : α :=
  if cmp v lo = .lt then lo else if cmp v hi = .gt then hi else v

variable {cmp : α → α → Ordering} {lo hi v w x : α}

/-- A value below, above or between the bounds: clamping has these three cases. -/
theorem clamped_cases (cmp : α → α → Ordering) (lo hi v : α) :
    (cmp v lo = .lt ∧ clamped cmp lo hi v = lo) ∨
      (cmp v lo ≠ .lt ∧ cmp v hi = .gt ∧ clamped cmp lo hi v = hi) ∨
      (cmp v lo ≠ .lt ∧ cmp v hi ≠ .gt ∧ clamped cmp lo hi v = v) := by
  unfold clamped
  by_cases hbelow : cmp v lo = .lt
  · exact Or.inl ⟨hbelow, if_pos hbelow⟩
  · rw [if_neg hbelow]
    by_cases habove : cmp v hi = .gt
    · exact Or.inr (Or.inl ⟨hbelow, habove, if_pos habove⟩)
    · exact Or.inr (Or.inr ⟨hbelow, habove, if_neg habove⟩)

theorem clamped_of_between (hlo : cmp v lo ≠ .lt) (hhi : cmp v hi ≠ .gt) :
    clamped cmp lo hi v = v := by
  unfold clamped
  rw [if_neg hlo, if_neg hhi]

theorem clamped_mem (cmp : α → α → Ordering) (lo hi v : α) :
    clamped cmp lo hi v ∈ [v, lo, hi] := by
  rcases clamped_cases cmp lo hi v with ⟨_, h⟩ | ⟨_, _, h⟩ | ⟨_, _, h⟩ <;> rw [h] <;> simp

/-- The way by the later and the earlier value gives the clamped value, except for a value level
with the lower bound, which the bound replaces. -/
theorem earlier_later (hbounds : cmp lo hi ≠ .gt) (v : α) :
    earlier cmp (later cmp v lo) hi = if cmp v lo = .eq then lo else clamped cmp lo hi v := by
  rcases hv : cmp v lo with _ | _ | _
  · simp [later, earlier, clamped, hv, hbounds]
  · simp [later, earlier, hv, hbounds]
  · simp [later, earlier, clamped, hv]

section
variable [Std.TransCmp cmp]

theorem not_lt_iff {a b : α} : cmp a b ≠ .lt ↔ cmp b a ≠ .gt :=
  not_congr Std.OrientedCmp.gt_iff_lt.symm

theorem not_gt_self (a : α) : cmp a a ≠ .gt := by
  have hself : cmp a a = .eq := Std.ReflCmp.compare_self
  rw [hself]
  decide

theorem clamped_of_above (hbounds : cmp lo hi ≠ .gt) (habove : cmp v hi = .gt) :
    clamped cmp lo hi v = hi := by
  have hhv : cmp hi v ≠ .gt := not_lt_iff.mp (by rw [habove]; decide)
  have hlo : cmp v lo ≠ .lt := not_lt_iff.mpr (not_gt_trans hbounds hhv)
  unfold clamped
  rw [if_neg hlo, if_pos habove]

/-- A clamped value is at most what the lower bound is at most, and the value or the upper bound
too. -/
theorem clamped_le (hlo : cmp lo x ≠ .gt) (h : cmp v x ≠ .gt ∨ cmp hi x ≠ .gt) :
    cmp (clamped cmp lo hi v) x ≠ .gt := by
  rcases clamped_cases cmp lo hi v with ⟨_, hz⟩ | ⟨_, habove, hz⟩ | ⟨_, hwithin, hz⟩ <;> rw [hz]
  · exact hlo
  · have hhv : cmp hi v ≠ .gt := not_lt_iff.mp (by rw [habove]; decide)
    exact h.elim (not_gt_trans hhv) id
  · exact h.elim id (not_gt_trans hwithin)

theorem le_clamped (hbounds : cmp lo hi ≠ .gt) (v : α) : cmp lo (clamped cmp lo hi v) ≠ .gt := by
  rcases clamped_cases cmp lo hi v with ⟨_, hz⟩ | ⟨_, _, hz⟩ | ⟨hwithin, _, hz⟩ <;> rw [hz]
  · exact not_gt_self lo
  · exact hbounds
  · exact not_lt_iff.mp hwithin

theorem clamped_le_upper (hbounds : cmp lo hi ≠ .gt) (v : α) :
    cmp (clamped cmp lo hi v) hi ≠ .gt :=
  clamped_le hbounds (Or.inr (not_gt_self hi))

theorem clamped_clamped (hbounds : cmp lo hi ≠ .gt) (v : α) :
    clamped cmp lo hi (clamped cmp lo hi v) = clamped cmp lo hi v :=
  clamped_of_between (not_lt_iff.mpr (le_clamped hbounds v)) (clamped_le_upper hbounds v)

theorem clamped_mono (hbounds : cmp lo hi ≠ .gt) (hvw : cmp v w ≠ .gt) :
    cmp (clamped cmp lo hi v) (clamped cmp lo hi w) ≠ .gt := by
  apply clamped_le (le_clamped hbounds w)
  rcases clamped_cases cmp lo hi w with ⟨hbelow, hz⟩ | ⟨_, _, hz⟩ | ⟨_, _, hz⟩ <;> rw [hz]
  · left
    apply not_gt_trans hvw
    rw [hbelow]
    decide
  · exact Or.inr (not_gt_self hi)
  · exact Or.inl hvw

theorem clamped_level (hbounds : cmp lo hi ≠ .gt) (v : α) :
    cmp (clamped cmp lo hi v) (earlier cmp (later cmp v lo) hi) = .eq := by
  rw [earlier_later hbounds]
  by_cases hv : cmp v lo = .eq
  · have hwithin : cmp v hi ≠ .gt := by
      apply not_gt_trans _ hbounds
      rw [hv]
      decide
    rw [if_pos hv, clamped_of_between (by rw [hv]; decide) hwithin]
    exact hv
  · rw [if_neg hv]
    exact Std.ReflCmp.compare_self

end

end Sorting

/-! ## Clamping brands -/

namespace Comparison

/-- The partial order of a base is its total order: all values are ordered, and as they rank. -/
def RanksAs (c : Comparison β) (r : Ranking β) : Prop :=
  ∀ a b, (c.partialCmp a b).value = some (r.order a b)

variable {c : Comparison β} {r : Ranking β}

section
variable (h : c.RanksAs r) (mark : μ) (x y : Brand mark β)
include h

theorem RanksAs.lt_iff :
    ((c.brand mark).lt x y).value = true ↔ (r.brand mark).order x y = .lt := by
  show isBelow (c.partialCmp x.base y.base).value = true ↔ r.order x.base y.base = .lt
  rw [h x.base y.base]
  cases r.order x.base y.base <;> decide

theorem RanksAs.le_iff :
    ((c.brand mark).le x y).value = true ↔ (r.brand mark).order x y ≠ .gt := by
  show isAtMost (c.partialCmp x.base y.base).value = true ↔ r.order x.base y.base ≠ .gt
  rw [h x.base y.base]
  cases r.order x.base y.base <;> decide

theorem RanksAs.gt_iff :
    ((c.brand mark).gt x y).value = true ↔ (r.brand mark).order x y = .gt := by
  show isAbove (c.partialCmp x.base y.base).value = true ↔ r.order x.base y.base = .gt
  rw [h x.base y.base]
  cases r.order x.base y.base <;> decide

end

theorem value_clamp (c : Comparison β) (v lo hi : β) :
    (c.clamp v lo hi).value =
      if (c.le lo hi).value = true then
        if (c.lt v lo).value = true then some lo
        else if (c.gt v hi).value = true then some hi else some v
      else none := by
  unfold clamp
  rw [Logged.value_bind]
  split
  · rw [Logged.value_bind]
    split
    · rfl
    · rw [Logged.value_bind]
      split <;> rfl
  · rfl

/-- On brands of a base whose partial order is total, clamping is clamping by the plain order. -/
theorem RanksAs.clamp_eq (h : c.RanksAs r) (mark : μ) (v lo hi : Brand mark β) :
    ((c.brand mark).clamp v lo hi).value =
      if (r.brand mark).order lo hi = .gt then none
      else some (Sorting.clamped (r.brand mark).order lo hi v) := by
  simp only [value_clamp, h.le_iff mark, h.lt_iff mark, h.gt_iff mark, Sorting.clamped]
  split_ifs <;> first | rfl | contradiction

end Comparison

open Sorting in
/-- Clamping brands of a base with a total order fails on bounds that are out of order, and on no
others. Otherwise one of the three values comes back and stands between the bounds: the bound that
the value passes, or the value itself, also when it is level with a bound. Clamping again changes
nothing, clamping keeps the order of two values, and the later of the value and the lower bound,
brought to the upper one, is level with the result, and is it unless the value is level with the
lower bound. -/
theorem a_clamped_brand_stands_between_the_bounds {c : Comparison β} {r : Ranking β}
    (h : c.RanksAs r) [Std.TransCmp r.order] (mark : μ) (lo hi : Brand mark β) :
    let brands := c.brand mark
    let cmp := (r.brand mark).order
    let clamp := fun v => (brands.clamp v lo hi).value
    (∀ v, clamp v = none ↔ (brands.gt lo hi).value = true) ∧
    ∀ v z, clamp v = some z →
      z ∈ [v, lo, hi] ∧
      ((brands.le lo z).value = true ∧ (brands.le z hi).value = true) ∧
      ((brands.lt v lo).value = true → z = lo) ∧ ((brands.gt v hi).value = true → z = hi) ∧
      ((brands.lt v lo).value = false → (brands.gt v hi).value = false → z = v) ∧
      clamp z = some z ∧
      (∀ w y, (brands.le v w).value = true → clamp w = some y → (brands.le z y).value = true) ∧
      cmp z (earlier cmp (later cmp v lo) hi) = .eq ∧
      earlier cmp (later cmp v lo) hi = if cmp v lo = .eq then lo else z := by
  intro brands cmp clamp
  have hcmp : Std.TransCmp cmp :=
    inferInstanceAs (Std.TransCmp (through (fun x : Brand mark β => x.base) r.order))
  have hclamp : ∀ v, clamp v = if cmp lo hi = .gt then none else some (clamped cmp lo hi v) :=
    fun v => h.clamp_eq mark v lo hi
  refine ⟨fun v => ?fails, fun v z hz => ?returns⟩
  case fails =>
    rw [hclamp v, h.gt_iff mark]
    split_ifs with hbounds
    · simp [cmp, hbounds]
    · simp [cmp, hbounds]
  case returns =>
    have hbounds : cmp lo hi ≠ .gt := by
      intro hgt
      rw [hclamp v, if_pos hgt] at hz
      contradiction
    have hsome : ∀ w, clamp w = some (clamped cmp lo hi w) := fun w => by
      rw [hclamp w, if_neg hbounds]
    obtain rfl : clamped cmp lo hi v = z := Option.some.inj ((hsome v).symm.trans hz)
    refine ⟨clamped_mem cmp lo hi v, ⟨(h.le_iff mark _ _).mpr (le_clamped hbounds v),
      (h.le_iff mark _ _).mpr (clamped_le_upper hbounds v)⟩, fun hbelow => ?below,
      fun habove => ?above, fun hlo hhi => ?between, ?again, fun w y hvw hy => ?monotone,
      clamped_level hbounds v, earlier_later hbounds v⟩
    case below => exact if_pos ((h.lt_iff mark v lo).mp hbelow)
    case above => exact clamped_of_above hbounds ((h.gt_iff mark v hi).mp habove)
    case between =>
      apply clamped_of_between
      · exact fun hlt => absurd ((h.lt_iff mark v lo).mpr hlt) (ne_true_of_eq_false hlo)
      · exact fun hgt => absurd ((h.gt_iff mark v hi).mpr hgt) (ne_true_of_eq_false hhi)
    case again => rw [hsome, clamped_clamped hbounds]
    case monotone =>
      obtain rfl := Option.some.inj ((hsome w).symm.trans hy)
      exact (h.le_iff mark _ _).mpr (clamped_mono hbounds ((h.le_iff mark v w).mp hvw))

open Sorting in
/-- A spelling that is level with the lower bound is kept, where the later of the two is the bound;
a spelling above the upper bound becomes that bound, and clamping between bounds the other way round
fails. -/
theorem clamping_keeps_the_spelling :
    let c := Caseless.capabilities.comparison
    let r : Ranking Caseless := .ofOrder Caseless.order
    let mark : Mark := ⟨.named "Word", .defaultField⟩
    let brand := fun s : String => (⟨⟨s⟩⟩ : Brand mark Caseless)
    let cmp := (r.brand mark).order
    let clamp := fun v => ((c.brand mark).clamp v (brand "a") (brand "b")).value
    let chosen := earlier cmp (later cmp (brand "A") (brand "a")) (brand "b")
    c.RanksAs r ∧ Std.TransCmp r.order ∧
      clamp (brand "A") = some (brand "A") ∧ chosen = brand "a" ∧ cmp (brand "A") chosen = .eq ∧
      clamp (brand "C") = some (brand "b") ∧
      ((c.brand mark).le (brand "A") (brand "b")).value = true ∧
      ((c.brand mark).clamp (brand "A") (brand "b") (brand "a")).value = none := by
  intro c r mark brand cmp clamp chosen
  have hranks : c.RanksAs r := fun _ _ => rfl
  have htotal : Std.TransCmp r.order := Keyed.caseless_orderLaw.total
  obtain ⟨_, hlaw⟩ := a_clamped_brand_stands_between_the_bounds hranks mark (brand "a") (brand "b")
  obtain ⟨hback, _⟩ := a_clamped_brand_stands_between_the_bounds hranks mark (brand "b") (brand "a")
  have hkey : ∀ x y, cmp (brand x) (brand y) = compare (Caseless.key ⟨x⟩) (Caseless.key ⟨y⟩) :=
    fun _ _ => rfl
  have hkeys : Caseless.key ⟨"a"⟩ = "a" ∧ Caseless.key ⟨"A"⟩ = "a" ∧ Caseless.key ⟨"b"⟩ = "b" ∧
      Caseless.key ⟨"C"⟩ = "c" := by decide +kernel
  have hab : compare "a" "a" = .eq ∧ compare "a" "b" = .lt ∧ compare "b" "a" = .gt := by decide
  have hc : compare "c" "a" = .gt ∧ compare "c" "b" = .gt ∧ compare "a" "c" = .lt := by decide
  have hclamp : ∀ v, clamp v =
      if cmp (brand "a") (brand "b") = .gt then none
      else some (clamped cmp (brand "a") (brand "b") v) := fun v => hranks.clamp_eq mark v _ _
  have hkept : clamp (brand "A") = some (brand "A") := by
    simp [hclamp, clamped, hkey, hkeys, hab]
  have hcapped : clamp (brand "C") = some (brand "b") := by
    simp [hclamp, clamped, hkey, hkeys, hab, hc]
  obtain ⟨_, _, _, _, _, _, hmonotone, hlevel, hchosen⟩ := hlaw _ _ hkept
  have htie : cmp (brand "A") (brand "a") = .eq := by simp [hkey, hkeys]
  have hAC : cmp (brand "A") (brand "C") ≠ .gt := by simp [hkey, hkeys, hc]
  have hba : cmp (brand "b") (brand "a") = .gt := by simp [hkey, hkeys, hab]
  have hle : ((c.brand mark).le (brand "A") (brand "C")).value = true :=
    (hranks.le_iff mark _ _).mpr hAC
  have hgt : ((c.brand mark).gt (brand "b") (brand "a")).value = true :=
    (hranks.gt_iff mark _ _).mpr hba
  exact ⟨hranks, htotal, hkept, hchosen.trans (if_pos htie), hlevel, hcapped,
    hmonotone (brand "C") (brand "b") hle hcapped, (hback (brand "A")).mpr hgt⟩

end NominalBrand
