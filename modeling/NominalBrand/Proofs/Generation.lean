-- The laws of generating brands. What sends the generated values through a
-- function is not fixed here. It may be any mapper that makes its searches around
-- those of the strategy, passes the moves on, and shows the image of each value;
-- with such a mapper a stack of brands is searched as its base is.
import NominalBrand.Strategy

namespace NominalBrand

variable {ρ ε τ τ' β β' β'' : Type}

/-! ## Mappers -/

/-- What makes a strategy for images out of a strategy for values. The searches of the one are made
around the searches of the other, and they may hold more. -/
structure Mapper where
  /-- The searches for images: around which searches, from which values, to which images. -/
  Search : Type → Type → Type → Type
  around {τ β β' : Type} (f : β → β') (t : τ) : Search τ β β'
  map {ρ ε τ β β' : Type} (f : β → β') (s : Strategy ρ ε τ β) : Strategy ρ ε (Search τ β β') β'

namespace Mapper

/-- A mapper starts its search from the search of the strategy, or fails as the strategy fails. It
passes both moves on and applies the function to the current value. -/
structure Lawful (m : Mapper) : Prop where
  start {ρ ε τ β β' : Type} (f : β → β') (s : Strategy ρ ε τ β) (p : ρ) :
    (m.map f s).start p = (s.start p).map (m.around f)
  current {ρ ε τ β β' : Type} (f : β → β') (s : Strategy ρ ε τ β) (t : τ) :
    (m.map f s).current (m.around f t) = f (s.current t)
  simplify {ρ ε τ β β' : Type} (f : β → β') (s : Strategy ρ ε τ β) (t : τ) :
    (m.map f s).simplify (m.around f t) = ((s.simplify t).1, m.around f (s.simplify t).2)
  complicate {ρ ε τ β β' : Type} (f : β → β') (s : Strategy ρ ε τ β) (t : τ) :
    (m.map f s).complicate (m.around f t) = ((s.complicate t).1, m.around f (s.complicate t).2)

/-- The mapper whose searches are the searches of the strategy. -/
def direct : Mapper where
  Search τ _ _ := τ
  around _ t := t
  map := Strategy.map

theorem lawful_direct : direct.Lawful where
  start f s p := by cases h : s.start p <;> simp only [direct, Strategy.map, h] <;> rfl
  current _ _ _ := rfl
  simplify _ _ _ := rfl
  complicate _ _ _ := rfl

/-- The searches for a stack of brands. -/
def TowerSearch (m : Mapper) (τ β : Type) : List Mark → Type
  | [] => τ
  | mark :: marks => m.Search (m.TowerSearch τ β marks) (Tower β marks) (Brand mark (Tower β marks))

/-- The strategy of a stack of brands, each of which maps the strategy of its base. -/
def tower (m : Mapper) (s : Strategy ρ ε τ β) :
    (marks : List Mark) → Strategy ρ ε (m.TowerSearch τ β marks) (Tower β marks)
  | [] => s
  | _ :: marks => m.map Brand.mk (m.tower s marks)

end Mapper

/-! ## Watching a search -/

/-- One step of whoever searches: a look at the current value, or a move. -/
inductive SearchStep where
  | look
  | move (m : SearchMove)
deriving DecidableEq

/-- What a step tells: the current value, or whether the search moved. -/
inductive Sight (β : Type) where
  | value (v : β)
  | moved (did : Bool)
deriving DecidableEq

/-- The same sight, with a value sent through a function. -/
def Sight.map (f : β → β') : Sight β → Sight β'
  | .value v => .value (f v)
  | .moved did => .moved did

namespace Strategy

/-- Carries out steps in order and tells what each of them tells. -/
def watch (s : Strategy ρ ε τ β) : τ → List SearchStep → List (Sight β)
  | _, [] => []
  | t, .look :: steps => .value (s.current t) :: s.watch t steps
  | t, .move m :: steps => .moved (s.move m t).1 :: s.watch (s.move m t).2 steps

/-- The second strategy fails when and as the first does. Otherwise both start searches that no
steps tell apart, once the values of the second are taken back. -/
def Follows (s : Strategy ρ ε τ β) (s' : Strategy ρ ε τ' β') (back : β' → β) : Prop :=
  ∀ p, (∀ e, s'.start p = .error e ↔ s.start p = .error e) ∧
    ∀ t, s.start p = .ok t → ∃ t', s'.start p = .ok t' ∧
      ∀ steps, (s'.watch t' steps).map (Sight.map back) = s.watch t steps

/-- The searches of the second strategy are made around those of the first and go along with
them. -/
structure GoesAlong (s : Strategy ρ ε τ β) (s' : Strategy ρ ε τ' β') (around : τ → τ')
    (back : β' → β) : Prop where
  start : ∀ p, s'.start p = (s.start p).map around
  current : ∀ t, back (s'.current (around t)) = s.current t
  move : ∀ m t, s'.move m (around t) = ((s.move m t).1, around (s.move m t).2)

namespace GoesAlong

variable {s : Strategy ρ ε τ β} {s' : Strategy ρ ε τ' β'} {around : τ → τ'} {back : β' → β}

theorem refl (s : Strategy ρ ε τ β) : s.GoesAlong s id id where
  start p := by cases s.start p <;> rfl
  current _ := rfl
  move _ _ := rfl

/-- A mapped strategy goes along with whatever the strategy goes along with. -/
theorem map (h : s.GoesAlong s' around back) {m : Mapper} (hm : m.Lawful) (f : β' → β'')
    {undo : β'' → β'} (hundo : ∀ v, undo (f v) = v) :
    s.GoesAlong (m.map f s') (m.around f ∘ around) (back ∘ undo) where
  start p := by
    rw [hm.start, h.start]
    cases s.start p <;> rfl
  current t := by
    simp only [Function.comp_apply, hm.current, hundo, h.current]
  move move t := by
    cases move with
    | simplify =>
      have hs := h.move .simplify t
      simp only [Strategy.move] at hs
      simp only [Strategy.move, Function.comp_apply, hm.simplify, hs]
    | complicate =>
      have hs := h.move .complicate t
      simp only [Strategy.move] at hs
      simp only [Strategy.move, Function.comp_apply, hm.complicate, hs]

theorem watch (h : s.GoesAlong s' around back) (t : τ) (steps : List SearchStep) :
    (s'.watch (around t) steps).map (Sight.map back) = s.watch t steps := by
  induction steps generalizing t with
  | nil => rfl
  | cons step steps ih =>
    cases step with
    | look => simp only [Strategy.watch, List.map_cons, Sight.map, h.current, ih]
    | move m => simp only [Strategy.watch, List.map_cons, Sight.map, h.move, ih]

theorem search (h : s.GoesAlong s' around back) (t : τ) (moves : List SearchMove) :
    (s'.search (around t) moves).map (Prod.map id back) = s.search t moves := by
  induction moves generalizing t with
  | nil => rfl
  | cons m moves ih =>
    simp only [Strategy.search, List.map_cons, Prod.map, h.move, h.current, ih, id]

theorem follows (h : s.GoesAlong s' around back) : s.Follows s' back := by
  intro p
  rw [h.start]
  cases s.start p with
  | error e =>
    refine ⟨fun e' => ?_, fun t ht => nomatch ht⟩
    simp only [Except.map, Except.error.injEq]
  | ok t =>
    refine ⟨fun e => ?_, fun t' ht => ?_⟩
    · simp only [Except.map, reduceCtorEq]
    · obtain rfl : t = t' := Except.ok.inj ht
      exact ⟨around t, rfl, h.watch t⟩

end GoesAlong

end Strategy

/-- The strategy of a stack of brands goes along with that of the base. -/
theorem Mapper.tower_goesAlong {m : Mapper} (hm : m.Lawful) (s : Strategy ρ ε τ β)
    (marks : List Mark) : ∃ around, s.GoesAlong (m.tower s marks) around (Tower.base marks) := by
  induction marks with
  | nil => exact ⟨id, .refl s⟩
  | cons mark marks ih =>
    obtain ⟨around, h⟩ := ih
    exact ⟨_, h.map hm Brand.mk fun _ => rfl⟩

theorem Strategy.tower_goesAlong (s : Strategy ρ ε τ β) (marks : List Mark) :
    ∃ around, s.GoesAlong (s.tower marks) around (Tower.base marks) := by
  induction marks with
  | nil => exact ⟨id, .refl s⟩
  | cons mark marks ih =>
    obtain ⟨around, h⟩ := ih
    exact ⟨_, h.map Mapper.lawful_direct Brand.mk fun _ => rfl⟩

/-! ## The law -/

/-- A stack of brands is generated as its base is. It fails for the parameters and the reasons for
which the base fails; otherwise its search, asked for any looks and moves in any order, moves when
the search of the base moves and shows the same values under the brands. -/
theorem brands_are_generated_as_their_base {m : Mapper} (hm : m.Lawful) (s : Strategy ρ ε τ β)
    (marks : List Mark) :
    s.Follows (m.tower s marks) (Tower.base marks) ∧
      s.Follows (s.tower marks) (Tower.base marks) ∧
      ∀ p moves, ((s.tower marks).explore p moves).map
          (Prod.map (Tower.base marks) (List.map (Prod.map id (Tower.base marks)))) =
        s.explore p moves := by
  obtain ⟨_, hmapped⟩ := Mapper.tower_goesAlong hm s marks
  obtain ⟨around, htower⟩ := s.tower_goesAlong marks
  refine ⟨hmapped.follows, htower.follows, fun p moves => ?_⟩
  unfold Strategy.explore
  rw [htower.start]
  cases s.start p with
  | error e => rfl
  | ok t =>
    exact congrArg Except.ok (Prod.ext (htower.current t) (htower.search t moves))

/-- The mapper whose searches keep the function beside the search of the strategy. -/
def Mapper.keeping : Mapper where
  Search τ β β' := τ × (β → β')
  around f t := (t, f)
  map f s := {
    start := fun p => (s.start p).map fun t => (t, f)
    current := fun t => t.2 (s.current t.1)
    simplify := fun t => ((s.simplify t.1).1, (s.simplify t.1).2, t.2)
    complicate := fun t => ((s.complicate t.1).1, (s.complicate t.1).2, t.2) }

theorem Mapper.lawful_keeping : Mapper.keeping.Lawful where
  start _ _ _ := rfl
  current _ _ _ := rfl
  simplify _ _ _ := rfl
  complicate _ _ _ := rfl

/-- Brands of brands over two numbers: the second move finds no simpler value. -/
theorem two_marks_over_two_numbers :
    let s := Strategy.scripted Nat
    let marks : List Mark := [⟨.named "Outer", .defaultField⟩, ⟨.named "Inner", .defaultField⟩]
    let steps : List SearchStep :=
      [.look, .move .simplify, .look, .move .simplify, .move .complicate, .look]
    Mapper.keeping.Lawful ∧
      (Mapper.keeping.tower s marks).start [] = .error .noValues ∧
      ∃ t, (Mapper.keeping.tower s marks).start [7, 3] = .ok t ∧
        ((Mapper.keeping.tower s marks).watch t steps).map (Sight.map (Tower.base marks)) =
          [.value 7, .moved true, .value 3, .moved false, .moved true, .value 7] := by
  intro s marks steps
  obtain ⟨hfollows, _, _⟩ := brands_are_generated_as_their_base Mapper.lawful_keeping s marks
  obtain ⟨t, ht, hwatch⟩ := (hfollows [7, 3]).2 ⟨[], 7, [3]⟩ rfl
  exact ⟨Mapper.lawful_keeping, ((hfollows []).1 .noValues).mpr rfl, t, ht, hwatch steps⟩

end NominalBrand
