-- Sessions: one brander built around a rule, and requests carried out on it
-- and on its copies. The transcript tells for each request its answer, the
-- values on which the validator was called, and the events that were logged.
import NominalBrand.BranderPool
import NominalBrand.Rule

namespace NominalBrand

/-- The handle of a rule's validator: where its memory lies, and whether it owns that memory. -/
structure Handle where
  cell : Nat
  owned : Bool
deriving DecidableEq

/-- The outside state of a session: every validator's memory, and the values seen, in order. -/
structure Ledger (β : Type) where
  memories : List Memory
  seen : List β

namespace Ledger

variable {β : Type}

def memory (s : Ledger β) (h : Handle) : Memory := s.memories[h.cell]?.getD {}

def note (s : Ledger β) (h : Handle) (value : β) (m : Memory) : Ledger β where
  memories := s.memories.set h.cell m
  seen := s.seen ++ [value]

/-- A copied handle shares its memory, or gets one of its own that starts with the same content. -/
def duplicate (h : Handle) (s : Ledger β) : Handle × Ledger β :=
  if h.owned then
    (⟨s.memories.length, true⟩, { s with memories := s.memories ++ [s.memory h] })
  else (h, s)

end Ledger

inductive Wiring where
  | identity
  | shared
  | borrowed
  /-- A validator of the caller's own type, which owns its memory. -/
  | owned
  | asserting
  /-- A check of the caller's own type, which owns its memory and reports nothing. -/
  | custom
deriving DecidableEq

namespace Wiring

def validator? : Wiring → Option (Validator Handle)
  | .identity => none
  | .shared => some (.function ⟨0, false⟩)
  | .borrowed => some (.reference (.function ⟨0, false⟩))
  | .owned => some (.function ⟨0, true⟩)
  | .asserting => some (.assertion (.function ⟨0, false⟩))
  | .custom => none

def brander (mark : Mark) (wiring : Wiring) : Brander Handle :=
  match wiring, wiring.validator? with
  | .custom, _ => .custom mark ⟨0, true⟩
  | _, some validator => .validated mark validator
  | _, none => .identity mark

end Wiring

structure Session (β : Type) where
  base : TypeExpr
  view : β → View
  mark : Mark
  wiring : Wiring
  rule : Rule

namespace Session

variable {β : Type}

def start : World (Ledger β) := ⟨⟨[{}], []⟩, []⟩

def judge (s : Session β) (h : Handle) (value : β) :
    Routine (Ledger β) Refusal Datum Datum :=
  .read fun ledger =>
    let m := ledger.memory h
    let o := s.rule.judge m (s.view value)
    .write (ledger.note h value (m.after (s.view value).form o)) (.finish o)

def roster (s : Session β) : Roster Handle (Ledger β) Refusal Datum Datum β where
  base _ := s.base
  judge := s.judge
  alarm := Refusal.alarm
  duplicate := Ledger.duplicate

/-- What one request did: its answer, the values seen, and the events logged meanwhile. -/
structure Entry (β : Type) where
  answer : Answer Handle Refusal Datum β
  seen : List β
  events : List Event

def entry (s : Session β) (tracing : Bool) (pool : Pool Handle) (w : World (Ledger β))
    (op : Operation Handle β) : Entry β × Pool Handle × World (Ledger β) :=
  let (answer, pool, w') := Pool.step s.roster tracing pool w op
  (⟨answer, w'.state.seen.drop w.state.seen.length, w'.events.drop w.events.length⟩, pool, w')

def entries (s : Session β) (tracing : Bool) (pool : Pool Handle) (w : World (Ledger β)) :
    List (Operation Handle β) → List (Entry β) × World (Ledger β)
  | [] => ([], w)
  | op :: ops =>
    let (first, pool, w) := s.entry tracing pool w op
    let (rest, w) := s.entries tracing pool w ops
    (first :: rest, w)

structure Transcript (β : Type) where
  built : List β
  entries : List (Entry β)
  /-- The brand that the events name, if there was an event. -/
  brand : Option String

def run (s : Session β) (tracing : Bool) (ops : List (Operation Handle β)) : Transcript β :=
  let (building, pool, w) := s.entry tracing [] start (.add (s.wiring.brander s.mark))
  let (entries, w) := s.entries tracing pool w ops
  ⟨building.seen, entries, w.events.head?.map Event.brand⟩

end Session

end NominalBrand
