-- Branded values. A brand holds exactly its base value: nothing is added and
-- nothing is changed, only the type differs, so two marks never mix.
import NominalBrand.TypeExpr

namespace NominalBrand

/-- A base value under a mark. The mark is part of the type and takes no part in the value. -/
structure Brand {μ : Type} (mark : μ) (β : Type) where
  base : β
deriving DecidableEq

namespace Brand

variable {μ : Type} {mark : μ} {β : Type}

theorem eq_of_base_eq {x y : Brand mark β} (h : x.base = y.base) : x = y := by
  cases x; cases y; cases h; rfl

def ofList (mark : μ) (values : List β) : List (Brand mark β) := values.map Brand.mk

def bases (values : List (Brand mark β)) : List β := values.map Brand.base

@[simp] theorem bases_ofList (values : List β) : bases (ofList mark values) = values := by
  simp [bases, ofList, Function.comp_def]

@[simp] theorem length_ofList (values : List β) : (ofList mark values).length = values.length := by
  simp [ofList]

end Brand

/-- A base value under a stack of marks, the outermost mark first. -/
def Tower (β : Type) : List Mark → Type
  | [] => β
  | mark :: marks => Brand mark (Tower β marks)

namespace Tower

variable {β : Type}

def raise (value : β) : (marks : List Mark) → Tower β marks
  | [] => value
  | _ :: marks => ⟨raise value marks⟩

def base : (marks : List Mark) → Tower β marks → β
  | [], value => value
  | _ :: marks, value => base marks (Brand.base value)

theorem eq_of_base_eq (marks : List Mark) {x y : Tower β marks} (h : base marks x = base marks y) :
    x = y := by
  induction marks with
  | nil => exact h
  | cons _ _ ih => exact Brand.eq_of_base_eq (ih h)

end Tower

end NominalBrand
