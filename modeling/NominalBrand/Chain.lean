-- Chains of branders. Each brander of a chain brands what the one before it
-- branded, so a value ends up under one brand for each of them. The first
-- brander that does not accept ends the chain, and its error or its panic
-- comes out as it was raised.
import NominalBrand.Check

namespace NominalBrand

def Action.mapError {σ ε ε' π α : Type} (g : ε → ε') (m : Action σ ε π α) : Action σ ε' π α :=
  fun w => ((m w).1.mapError g, (m w).2)

/-- Branders in a row, for values that carry these marks already. Each brander has errors of a type
of its own, and its check sees the brands that the branders before it put on. -/
inductive Chain (σ π β : Type) : List Mark → Type 1 where
  | done {marks : List Mark} : Chain σ π β marks
  | link {marks : List Mark} {ε : Type} (check : Check σ ε π (Tower β marks)) (mark : Mark)
      (rest : Chain σ π β (mark :: marks)) : Chain σ π β marks

namespace Chain

variable {σ π β : Type}

def length {marks : List Mark} : Chain σ π β marks → Nat
  | .done => 0
  | .link _ _ rest => rest.length + 1

/-- The errors of a chain: those of its first brander, and those of the branders after it. -/
def Error {marks : List Mark} : Chain σ π β marks → Type
  | .done => Empty
  | @link _ _ _ _ ε _ _ rest => ε ⊕ rest.Error

def reach : {marks : List Mark} → Chain σ π β marks → List Mark
  | marks, .done => marks
  | _, .link _ _ rest => rest.reach

def brand {marks : List Mark} : (c : Chain σ π β marks) → Tower β marks →
    Action σ c.Error π (Tower β c.reach)
  | .done, v => pure v
  | .link check mark rest, v => do
    let branded ← (check.brand mark v).mapError Sum.inl
    (rest.brand branded).mapError Sum.inr

end Chain

end NominalBrand
