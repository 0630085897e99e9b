-- The laws of branding in batches. A list may be cut anywhere, and each batch
-- branded as a list or one value at a time, in a place of its own or where it
-- stands. No cut can be seen from outside: the checks are those of the whole
-- list, so the first refusal, the world and the branded values are too.
import NominalBrand.Proofs.ListBranding

namespace NominalBrand

variable {σ ε π α α' β μ : Type}

/-! ## Steps that check values and hand over a result -/

namespace Check

theorem each_append_of_accepted {c : Check σ ε π β} {vs : List β} {w : World σ}
    (h : (c.each vs w).1 = .accepted ()) (vs' : List β) :
    c.each (vs ++ vs') w = c.each vs' (c.each vs w).2 := by
  induction vs generalizing w with
  | nil => rfl
  | cons v vs ih =>
    by_cases hv : (c v w).1 = .accepted ()
    · rw [each_cons_of_accepted hv] at h ⊢
      rw [List.cons_append, each_cons_of_accepted hv, ih h]
    · rw [each_cons_of_refused hv] at h
      exact absurd h hv

theorem each_append_of_refused {c : Check σ ε π β} {vs : List β} {w : World σ}
    (h : (c.each vs w).1 ≠ .accepted ()) (vs' : List β) :
    c.each (vs ++ vs') w = c.each vs w := by
  induction vs generalizing w with
  | nil => exact absurd rfl h
  | cons v vs ih =>
    by_cases hv : (c v w).1 = .accepted ()
    · rw [each_cons_of_accepted hv] at h ⊢
      rw [List.cons_append, each_cons_of_accepted hv, ih h]
    · rw [List.cons_append, each_cons_of_refused hv, each_cons_of_refused hv]

/-- A step checks these values front to back, does nothing else, and hands over `a` when all of
them are accepted. -/
def Yields (c : Check σ ε π β) (values : List β) (m : Action σ ε π α) (a : α) : Prop :=
  ∀ w, m w = ((c.each values w).1.map fun _ => a, (c.each values w).2)

namespace Yields

variable {c : Check σ ε π β} {vs vs' : List β}

theorem pure (c : Check σ ε π β) (a : α) : c.Yields [] (Pure.pure a) a := by
  intro w
  rfl

theorem brand (c : Check σ ε π β) (mark : μ) (v : β) : c.Yields [v] (c.brand mark v) ⟨v⟩ := by
  intro w
  rw [brand_apply, each_singleton]

theorem brandInPlace (c : Check σ ε π β) (mark : μ) (v : β) :
    c.Yields [v] (c.brandInPlace mark v) ⟨v⟩ := by
  intro w
  rw [brandInPlace_apply, each_singleton]

theorem brandEach (c : Check σ ε π β) (mark : μ) (values : List β) :
    c.Yields values (c.brandEach mark values) (Brand.ofList mark values) :=
  brandEach_apply c mark values

theorem map {m : Action σ ε π α} {a : α} (h : c.Yields vs m a) (f : α → α') :
    c.Yields vs (do return f (← m)) (f a) := by
  intro w
  by_cases ha : (c.each vs w).1 = .accepted ()
  · have hm : m w = (.accepted a, (c.each vs w).2) := by rw [h w, ha]; rfl
    rw [Action.bind_of_accepted hm, ha]
    rfl
  · exact Action.bind_of_refused ha (h w) _ _

/-- Two such steps, the second only after the first was accepted, check the values of both. -/
theorem andThen {m : Action σ ε π α} {m' : Action σ ε π α'} {a : α} {a' : α'} {α'' : Type}
    (h : c.Yields vs m a) (h' : c.Yields vs' m' a') (f : α → α' → α'') :
    c.Yields (vs ++ vs') (do return f (← m) (← m')) (f a a') := by
  intro w
  by_cases ha : (c.each vs w).1 = .accepted ()
  · rw [each_append_of_accepted ha]
    have hm : m w = (.accepted a, (c.each vs w).2) := by rw [h w, ha]; rfl
    rw [Action.bind_of_accepted hm]
    by_cases ha' : (c.each vs' (c.each vs w).2).1 = .accepted ()
    · have hm' : m' (c.each vs w).2 = (.accepted a', (c.each vs' (c.each vs w).2).2) := by
        rw [h', ha']; rfl
      rw [Action.bind_of_accepted hm', ha']
      rfl
    · exact Action.bind_of_refused ha' (h' _) _ _
  · rw [each_append_of_refused ha]
    exact Action.bind_of_refused ha (h w) _ _

end Yields

/-! ## Batches -/

/-- How a batch is branded: as a list where it stands, or value by value. -/
inductive Manner where
  | asList
  | oneByOne
  | oneByOneInPlace
deriving DecidableEq

/-- Brands values one after the other, and stops at the first that is not accepted. -/
def inTurn {mark : μ} (one : β → Action σ ε π (Brand mark β)) :
    List β → Action σ ε π (List (Brand mark β))
  | [] => pure []
  | v :: vs => do return (← one v) :: (← inTurn one vs)

/-- Brands a batch. -/
def brandBatch (c : Check σ ε π β) (mark : μ) :
    Manner → List β → Action σ ε π (List (Brand mark β))
  | .asList, vs => c.brandEach mark vs
  | .oneByOne, vs => inTurn (c.brand mark) vs
  | .oneByOneInPlace, vs => inTurn (c.brandInPlace mark) vs

/-- Brands batches in order, stops at the first that is not accepted, and joins what they give. -/
def brandBatches (c : Check σ ε π β) (mark : μ) :
    List (Manner × List β) → Action σ ε π (List (Brand mark β))
  | [] => pure []
  | (manner, vs) :: batches => do
    return (← c.brandBatch mark manner vs) ++ (← c.brandBatches mark batches)

/-- The list that was cut into batches. -/
def uncut (batches : List (Manner × List β)) : List β := batches.flatMap Prod.snd

theorem Yields.inTurn {c : Check σ ε π β} {mark : μ} {one : β → Action σ ε π (Brand mark β)}
    (h : ∀ v, c.Yields [v] (one v) ⟨v⟩) (vs : List β) :
    c.Yields vs (Check.inTurn one vs) (Brand.ofList mark vs) := by
  induction vs with
  | nil => exact .pure c []
  | cons v vs ih => exact (h v).andThen ih List.cons

theorem Yields.brandBatch (c : Check σ ε π β) (mark : μ) (manner : Manner) (vs : List β) :
    c.Yields vs (c.brandBatch mark manner vs) (Brand.ofList mark vs) := by
  cases manner with
  | asList => exact .brandEach c mark vs
  | oneByOne => exact .inTurn (.brand c mark) vs
  | oneByOneInPlace => exact .inTurn (.brandInPlace c mark) vs

theorem Yields.brandBatches (c : Check σ ε π β) (mark : μ) (batches : List (Manner × List β)) :
    c.Yields (uncut batches) (c.brandBatches mark batches) (Brand.ofList mark (uncut batches)) := by
  induction batches with
  | nil => exact .pure c []
  | cons batch batches ih =>
    have happend : Brand.ofList mark (uncut (batch :: batches)) =
        Brand.ofList mark batch.2 ++ Brand.ofList mark (uncut batches) := List.map_append
    rw [happend]
    exact (Yields.brandBatch c mark batch.1 batch.2).andThen ih (· ++ ·)

/-! ## The law -/

/-- Batches are branded as the list that was cut: the outcome is the same, with the first error or
panic or with all the branded values in order, the world and its events are the same, and the check
is called with the same values, those of the list up to the first that is not accepted. -/
theorem batches_are_branded_as_one_list (c : Check σ ε π β) (mark : μ)
    (batches : List (Manner × List β)) (w : World σ) :
    c.brandBatches mark batches w = c.brandEach mark (uncut batches) w ∧
      ∀ record : List β,
        c.recorded.brandBatches mark batches (w.beside record) =
            c.recorded.brandEach mark (uncut batches) (w.beside record) ∧
          (c.recorded.brandBatches mark batches (w.beside record)).2 =
            (c.brandEach mark (uncut batches) w).2.beside
              (record ++ c.checked w (uncut batches)) := by
  have hsame : ∀ {σ' : Type} (c : Check σ' ε π β) (w : World σ'),
      c.brandBatches mark batches w = c.brandEach mark (uncut batches) w := by
    intro σ' c w
    rw [Yields.brandBatches c mark batches w, brandEach_apply]
  refine ⟨hsame c w, fun record => ⟨hsame c.recorded _, ?_⟩⟩
  rw [hsame, brandEach_apply, brandEach_apply, each_recorded]

end Check

end NominalBrand
