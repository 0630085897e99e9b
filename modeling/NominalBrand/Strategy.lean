-- Strategies that generate values and then search for simpler ones. A
-- strategy starts a search from its parameters, or fails for a reason; a
-- search shows a current value and moves when it is told to.
import NominalBrand.Brand

namespace NominalBrand

/-- A strategy with parameters `ρ`, failures `ε` and searches in states `τ`. -/
structure Strategy (ρ ε τ β : Type) where
  start : ρ → Except ε τ
  current : τ → β
  /-- Moves to a simpler value; tells whether there was one. -/
  simplify : τ → Bool × τ
  /-- Takes the last move back in part; tells whether that was possible. -/
  complicate : τ → Bool × τ

inductive SearchMove where
  | simplify
  | complicate
deriving DecidableEq

namespace Strategy

variable {ρ ε τ β β' μ : Type}

def map (f : β → β') (s : Strategy ρ ε τ β) : Strategy ρ ε τ β' where
  start := s.start
  current t := f (s.current t)
  simplify := s.simplify
  complicate := s.complicate

def brand (mark : μ) (s : Strategy ρ ε τ β) : Strategy ρ ε τ (Brand mark β) := s.map Brand.mk

def tower (s : Strategy ρ ε τ β) : (marks : List Mark) → Strategy ρ ε τ (Tower β marks)
  | [] => s
  | mark :: marks => (tower s marks).brand mark

def move (s : Strategy ρ ε τ β) : SearchMove → τ → Bool × τ
  | .simplify, t => s.simplify t
  | .complicate, t => s.complicate t

/-- Carries out moves in order; tells of each whether it moved, and the value it led to. -/
def search (s : Strategy ρ ε τ β) : τ → List SearchMove → List (Bool × β)
  | _, [] => []
  | t, m :: ms =>
    let (moved, t) := s.move m t
    (moved, s.current t) :: s.search t ms

def explore (s : Strategy ρ ε τ β) (params : ρ) (moves : List SearchMove) :
    Except ε (β × List (Bool × β)) := do
  let t ← s.start params
  return (s.current t, s.search t moves)

end Strategy

/-- A place in a list: what lies before it, nearest first, the value there, and what follows. -/
structure Cursor (β : Type) where
  before : List β
  here : β
  after : List β

namespace Cursor

variable {β : Type}

def forward (c : Cursor β) : Bool × Cursor β :=
  match c.after with
  | [] => (false, c)
  | next :: rest => (true, ⟨c.here :: c.before, next, rest⟩)

def back (c : Cursor β) : Bool × Cursor β :=
  match c.before with
  | [] => (false, c)
  | previous :: rest => (true, ⟨rest, previous, c.here :: c.after⟩)

end Cursor

inductive GenerateFault where
  | noValues
deriving DecidableEq

def GenerateFault.message : GenerateFault → String
  | .noValues => "nothing to generate"

/-- The strategy that walks along the values in its parameters. -/
def Strategy.scripted (β : Type) : Strategy (List β) GenerateFault (Cursor β) β where
  start
    | [] => .error .noValues
    | first :: rest => .ok ⟨[], first, rest⟩
  current := Cursor.here
  simplify := Cursor.forward
  complicate := Cursor.back

end NominalBrand
