-- The laws of aliases. The depth to which aliases are followed is computed from
-- the declarations, and it is enough: with each further round one more alias has
-- a meaning, or nothing changes any more. So an alias means what its declaration
-- writes, wherever in the list that declaration stands.
import NominalBrand.TypeTerm
import Mathlib.Data.Finset.Card
import Mathlib.Data.List.Nodup

namespace NominalBrand

/-! ## More aliases with a meaning -/

/-- What has a meaning keeps it when more aliases get one. -/
def Extends (meaning meaning' : String → Option TypeExpr) : Prop :=
  ∀ name T, meaning name = some T → meaning' name = some T

section
variable {meaning meaning' : String → Option TypeExpr}

mutual

theorem TypeTerm.expandWith_mono (h : Extends meaning meaning') (t : TypeTerm) {T : TypeExpr}
    (ht : t.expandWith meaning = some T) : t.expandWith meaning' = some T := by
  match t with
  | .named path =>
    rw [expandWith] at ht ⊢
    exact ht
  | .brand base tag field =>
    rw [expandWith] at ht ⊢
    obtain ⟨B, hb, ht⟩ := Option.bind_eq_some_iff.mp ht
    obtain ⟨G, hg, ht⟩ := Option.bind_eq_some_iff.mp ht
    obtain ⟨F, hf, ht⟩ := Option.bind_eq_some_iff.mp ht
    rw [expandWith_mono h base hb, expandWith_mono h tag hg, expandField_mono h field hf]
    exact ht
  | .declared name =>
    rw [expandWith] at ht ⊢
    exact h name T ht

theorem TypeTerm.expandField_mono (h : Extends meaning meaning') (field : Option TypeTerm)
    {T : TypeExpr} (ht : expandField meaning field = some T) :
    expandField meaning' field = some T := by
  match field with
  | none =>
    rw [expandField] at ht ⊢
    exact ht
  | some field =>
    rw [expandField] at ht ⊢
    exact expandWith_mono h field ht

end

end

/-! ## Rounds -/

namespace Declaration

variable (declarations : List Declaration)

theorem meaning_extends (depth : Nat) :
    Extends (meaning declarations depth) (meaning declarations (depth + 1)) := by
  induction depth with
  | zero =>
    intro name T h
    cases h
  | succ depth ih =>
    intro name T h
    obtain ⟨d, hd, hterm⟩ := Option.bind_eq_some_iff.mp h
    exact Option.bind_eq_some_iff.mpr ⟨d, hd, d.term.expandWith_mono ih hterm⟩

/-- The aliases that have a meaning at a depth. -/
def known (depth : Nat) : Finset String :=
  (declarations.map name).toFinset.filter fun a => (meaning declarations depth a).isSome

theorem known_subset (depth : Nat) : known declarations depth ⊆ known declarations (depth + 1) := by
  intro a h
  obtain ⟨hdeclared, hmeans⟩ := Finset.mem_filter.mp h
  obtain ⟨T, hT⟩ := Option.isSome_iff_exists.mp hmeans
  refine Finset.mem_filter.mpr ⟨hdeclared, ?_⟩
  rw [meaning_extends declarations depth a T hT]
  rfl

theorem card_known_le (depth : Nat) : (known declarations depth).card ≤ declarations.length := by
  calc (known declarations depth).card
      ≤ (declarations.map name).toFinset.card := Finset.card_filter_le _ _
    _ ≤ (declarations.map name).length := List.toFinset_card_le _
    _ = declarations.length := List.length_map _

/-- A round in which no further alias gets a meaning changes nothing. -/
theorem meaning_eq_of_known_eq {depth : Nat}
    (h : known declarations depth = known declarations (depth + 1)) :
    meaning declarations (depth + 1) = meaning declarations depth := by
  funext a
  rcases hT : meaning declarations (depth + 1) a with _ | T
  · rcases hT' : meaning declarations depth a with _ | T'
    · rfl
    · rw [meaning_extends declarations depth a T' hT'] at hT
      cases hT
  · obtain ⟨d, hd, _⟩ := Option.bind_eq_some_iff.mp hT
    have hdeclared : a ∈ declarations.map name := List.mem_map.mpr ⟨d, of_find? hd⟩
    have hknown : a ∈ known declarations (depth + 1) :=
      Finset.mem_filter.mpr ⟨List.mem_toFinset.mpr hdeclared, by rw [hT]; rfl⟩
    rw [← h] at hknown
    obtain ⟨T', hT'⟩ := Option.isSome_iff_exists.mp (Finset.mem_filter.mp hknown).2
    rw [← hT, meaning_extends declarations depth a T' hT', hT']

theorem stable_or_grown (depth : Nat) :
    meaning declarations (depth + 1) = meaning declarations depth ∨
      (known declarations depth).card < (known declarations (depth + 1)).card := by
  by_cases hknown : known declarations depth = known declarations (depth + 1)
  · exact Or.inl (meaning_eq_of_known_eq declarations hknown)
  · exact Or.inr (Finset.card_lt_card ((known_subset declarations depth).ssubset_of_ne hknown))

theorem stable_or_card_known (depth : Nat) :
    meaning declarations (depth + 1) = meaning declarations depth ∨
      depth < (known declarations (depth + 1)).card := by
  induction depth with
  | zero =>
    rcases stable_or_grown declarations 0 with hstable | hgrown
    · exact Or.inl hstable
    · exact Or.inr (Nat.zero_lt_of_lt hgrown)
  | succ depth ih =>
    rcases ih with hstable | hcard
    -- What a round makes depends on the round before it only.
    · left
      funext a
      exact congrArg (fun m => (find? declarations a).bind fun d => d.term.expandWith m) hstable
    · rcases stable_or_grown declarations (depth + 1) with hstable | hgrown
      · exact Or.inl hstable
      · exact Or.inr (by omega)

/-- As many rounds as there are declarations are enough. -/
theorem meaning_stable :
    meaning declarations (declarations.length + 1) = meaning declarations declarations.length := by
  rcases stable_or_card_known declarations declarations.length with hstable | hcard
  · exact hstable
  · have hbound := card_known_le declarations (declarations.length + 1)
    omega

end Declaration

/-! ## Expansion -/

variable {declarations declarations' : List Declaration}

/-- An alias means what its declaration writes under all declarations. -/
theorem TypeTerm.expand_declared (declarations : List Declaration) (name : String) :
    (TypeTerm.declared name).expand declarations =
      (Declaration.find? declarations name).bind fun d => d.term.expand declarations := by
  rw [expand, expandWith, ← Declaration.meaning_stable]
  rfl

theorem Declaration.find?_eq_some_iff (hnames : (declarations.map name).Nodup) {a : String}
    {d : Declaration} : find? declarations a = some d ↔ d ∈ declarations ∧ d.name = a := by
  constructor
  · exact of_find?
  · rintro ⟨hd, rfl⟩
    rcases he : find? declarations d.name with _ | e
    · exact absurd (decide_eq_true rfl) (List.find?_eq_none.mp he d hd)
    · obtain ⟨he', hname⟩ := of_find? he
      rw [List.inj_on_of_nodup_map hnames he' hd hname]

/-- The order of the declarations does not matter. -/
theorem TypeTerm.expand_perm (h : declarations.Perm declarations')
    (hnames : (declarations.map Declaration.name).Nodup) (t : TypeTerm) :
    t.expand declarations' = t.expand declarations := by
  have hnames' : (declarations'.map Declaration.name).Nodup := (h.map _).nodup_iff.mp hnames
  have hfind : ∀ a, Declaration.find? declarations' a =
      Declaration.find? declarations a := by
    intro a
    ext d
    rw [Declaration.find?_eq_some_iff hnames, Declaration.find?_eq_some_iff hnames', h.mem_iff]
  have hmeaning : ∀ depth, Declaration.meaning declarations' depth =
      Declaration.meaning declarations depth := by
    intro depth
    induction depth with
    | zero => rfl
    | succ depth ih =>
      funext a
      simp only [Declaration.meaning, hfind, ih]
  unfold expand
  rw [← h.length_eq, hmeaning]

end NominalBrand
