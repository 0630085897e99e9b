-- Checks and branding. A check decides whether a base value may carry a
-- brand. Branding runs the check and then hands back the very value that was
-- checked, under the brand: what the check says besides yes never matters.
import NominalBrand.Action
import NominalBrand.Brand

namespace NominalBrand

/-- Decides about one base value, and may use outside state to do so. -/
abbrev Check (σ ε π β : Type) : Type := β → Action σ ε π Unit

namespace Check

variable {σ ε π β μ : Type}

def anything : Check σ ε π β := fun _ => pure ()

def brand (c : Check σ ε π β) (mark : μ) (value : β) : Action σ ε π (Brand mark β) := do
  c value
  pure ⟨value⟩

def brandInPlace (c : Check σ ε π β) (mark : μ) (value : β) : Action σ ε π (Brand mark β) := do
  c value
  pure ⟨value⟩

/-- Checks values front to back and stops at the first that is not accepted. -/
def each (c : Check σ ε π β) : List β → Action σ ε π Unit
  | [] => pure ()
  | value :: rest => do
    c value
    c.each rest

/-- Brands a list where it stands: all of it, or nothing when one value is refused. -/
def brandEach (c : Check σ ε π β) (mark : μ) (values : List β) :
    Action σ ε π (List (Brand mark β)) := do
  c.each values
  pure (Brand.ofList mark values)

theorem each_nil (c : Check σ ε π β) (w : World σ) : c.each [] w = (.accepted (), w) := rfl

theorem each_cons_accepted {c : Check σ ε π β} {v : β} {vs : List β} {w w' : World σ}
    (h : c v w = (.accepted (), w')) : c.each (v :: vs) w = c.each vs w' := by
  simp only [each, Action.bind_apply, Action.andThen, h]

theorem each_cons_rejected {c : Check σ ε π β} {v : β} {vs : List β} {w w' : World σ} {e : ε}
    (h : c v w = (.rejected e, w')) : c.each (v :: vs) w = (.rejected e, w') := by
  simp only [each, Action.bind_apply, Action.andThen, h]

theorem each_cons_panicked {c : Check σ ε π β} {v : β} {vs : List β} {w w' : World σ} {p : π}
    (h : c v w = (.panicked p, w')) : c.each (v :: vs) w = (.panicked p, w') := by
  simp only [each, Action.bind_apply, Action.andThen, h]

end Check

end NominalBrand
