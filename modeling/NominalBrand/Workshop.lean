-- Workers who share one brander. Each has tasks of its own, and a schedule
-- says whose turn it is. In one turn a worker begins a task, checks a single
-- value, or ends a task, so a list may be left half checked for many turns.
import NominalBrand.Brander

namespace NominalBrand

inductive Task (β : Type) where
  | one (value : β)
  | inPlace (value : β)
  | list (values : List β)

def Task.values {β : Type} : Task β → List β
  | .one v => [v]
  | .inPlace v => [v]
  | .list vs => vs

structure Worker (ε π : Type) (mark : Mark) (β : Type) where
  waiting : List (Task β)
  /-- The task at hand: all its values, and those still to be checked. -/
  current : Option (List β × List β) := none
  /-- How the tasks ended, the latest first. -/
  results : List (Outcome ε π (List (Brand mark β))) := []

structure Workshop (σ ε π : Type) (mark : Mark) (β : Type) where
  workers : List (Worker ε π mark β)
  world : World σ

namespace Worker

variable {σ ε π β : Type} {mark : Mark}

def finish (k : Worker ε π mark β) (o : Outcome ε π (List (Brand mark β))) : Worker ε π mark β :=
  { k with current := none, results := o :: k.results }

/-- One turn of a worker. A value that is not accepted ends its task. -/
def turn (c : Check σ ε π β) (k : Worker ε π mark β) (w : World σ) :
    Worker ε π mark β × World σ :=
  match k.current, k.waiting with
  | none, [] => (k, w)
  | none, task :: tasks =>
    ({ k with waiting := tasks, current := some (task.values, task.values) }, w)
  | some (all, []), _ => (k.finish (.accepted (Brand.ofList mark all)), w)
  | some (all, v :: rest), _ =>
    match c v w with
    | (.accepted _, w) => ({ k with current := some (all, rest) }, w)
    | (.rejected e, w) => (k.finish (.rejected e), w)
    | (.panicked p, w) => (k.finish (.panicked p), w)

def turns (k : Worker ε π mark β) : Nat :=
  k.waiting.foldl (fun n t => n + (t.values.length + 2)) 0

end Worker

namespace Workshop

variable {σ ε π β : Type} {mark : Mark}

def start (state : σ) (tasks : List (List (Task β))) : Workshop σ ε π mark β :=
  ⟨tasks.map fun waiting => { waiting }, ⟨state, []⟩⟩

/-- One turn of the worker with a number; a number without a worker does nothing. -/
def step (c : Check σ ε π β) (s : Workshop σ ε π mark β) (i : Nat) : Workshop σ ε π mark β :=
  match s.workers[i]? with
  | none => s
  | some k =>
    let (k, w) := k.turn c s.world
    ⟨s.workers.set i k, w⟩

def run (c : Check σ ε π β) (s : Workshop σ ε π mark β) (schedule : List Nat) :
    Workshop σ ε π mark β := schedule.foldl (step c) s

/-- A schedule in which all workers take turns until the longest work is done. -/
def inTurns (s : Workshop σ ε π mark β) : List Nat :=
  let rounds := (s.workers.map Worker.turns).foldl max 0
  (List.range rounds).flatMap fun _ => List.range s.workers.length

def results (s : Workshop σ ε π mark β) : List (Outcome ε π (List (Brand mark β))) :=
  s.workers.flatMap fun k => k.results.reverse

def branded (s : Workshop σ ε π mark β) : List β :=
  s.results.flatMap fun
    | .accepted vs => Brand.bases vs
    | _ => []

end Workshop

/-- A validator that decides by the value alone and records each value, the latest first. -/
def recording {ε π ρ β : Type} (base : TypeExpr) (alarm : ε → π)
    (decide : β → Outcome ε π ρ) : Roster Unit (List β) ε π ρ β where
  base _ := base
  judge _ v := .read fun record => .write (v :: record) <| .finish (decide v)
  alarm := alarm
  duplicate h s := (h, s)

structure ShiftReport where
  accepted : Nat
  rejected : Nat
  sum : Nat
  identitySum : Nat
  calls : Nat
deriving DecidableEq

namespace ShiftReport

def numbers (each worker : Nat) : List Nat := (List.range each).map fun i => worker * each + i

def tasks (workers each : Nat) : List (List (Task Nat)) :=
  (List.range workers).map fun w => (numbers each w).map .one

def total (numbers : List Nat) : Nat := numbers.foldl (· + ·) 0

def mark : Mark := ⟨.named "Shared", .defaultField⟩

def ofLimit (workers each limit : Nat) : ShiftReport :=
  let roster := recording (.named "u64") (fun () => ()) fun v =>
    if v < limit then .accepted () else .rejected ()
  let checked : Brander Unit := .validated mark (.function ())
  let anything : Brander Unit := .identity mark
  let start : Workshop (List Nat) Unit Unit mark Nat := Workshop.start [] (tasks workers each)
  let shop := start.run (checked.check roster false) start.inTurns
  let unlimited := start.run (anything.check roster false) start.inTurns
  { accepted := shop.branded.length
    rejected := shop.results.length - shop.branded.length
    sum := total shop.branded
    identitySum := total unlimited.branded
    calls := shop.world.state.length }

end ShiftReport

end NominalBrand
