-- Rules: validators written down as data. A rule sees a value through three
-- views, and it may look back on the calls that its validator took and on the
-- values that it accepted.
import NominalBrand.Outcome
import NominalBrand.Refusal

namespace NominalBrand

structure View where
  number : Option Int
  text : Option String
  form : Datum

inductive Verdict where
  | accept (payload : Datum)
  | reject (error : Datum)
  | panic (payload : Datum)

inductive Rule where
  | accept (payload : Datum)
  | reject (error : Datum)
  | positive
  | even
  | atLeast (limit : Int)
  | atMost (limit : Int)
  | nonempty
  | bytesAtMost (limit : Int)
  | startsWith (text : String)
  | is (form : Datum)
  | increasing
  | unique
  /-- Fewer values than the limit were accepted so far. -/
  | budget (limit : Int)
  /-- The verdict is looked up by the number of the call. -/
  | script (verdicts : List Verdict)
  | all (rules : List Rule)
  | any (rules : List Rule)
  | not (rule : Rule) (error : Datum)
  | within (rule : Rule) (text : String)
  /-- A rejection of the inner rule becomes a panic. -/
  | insist (rule : Rule)

/-- What a validator remembers: how often it was called, and the forms it accepted, in order. -/
structure Memory where
  calls : Nat := 0
  accepted : List Datum := []

namespace Memory

def lastNumber? (m : Memory) : Option Int :=
  match m.accepted.getLast? with
  | some (.text s) => Numeral.readText? (.signed 128) s
  | _ => none

def after {ε π α : Type} (m : Memory) (form : Datum) (o : Outcome ε π α) : Memory where
  calls := m.calls + 1
  accepted := match o with
    | .accepted _ => m.accepted ++ [form]
    | _ => m.accepted

end Memory

namespace Rule

/-- How a rule ends: it accepts with a payload that no one reads. -/
abbrev Ruling : Type := Outcome Refusal Datum Datum

def require (cause : Refusal) (condition : Bool) : Ruling :=
  if condition then .accepted .null else .rejected cause

def onNumber (v : View) (f : Int → Ruling) : Ruling :=
  match v.number with
  | none => .rejected .notInteger
  | some n => f n

def onText (v : View) (f : String → Ruling) : Ruling :=
  match v.text with
  | none => .rejected .notText
  | some s => f s

/-- How a line of a script ends. Past the last line every call is accepted. -/
def follow : Option Verdict → Ruling
  | none => .accepted .null
  | some (.accept payload) => .accepted payload
  | some (.reject error) => .rejected (.stated error)
  | some (.panic payload) => .panicked payload.alarm

mutual

def judge (m : Memory) (v : View) : Rule → Ruling
  | .accept payload => .accepted payload
  | .reject error => .rejected (.stated error)
  | .positive => onNumber v fun n => require (.nonPositive n) (0 < n)
  | .even => onNumber v fun n => require (.odd n) (n % 2 == 0)
  | .atLeast limit => onNumber v fun n => require (.tooSmall n limit) (limit ≤ n)
  | .atMost limit => onNumber v fun n => require (.tooLarge n limit) (n ≤ limit)
  | .nonempty => onText v fun s => require .emptyText (s != "")
  | .bytesAtMost limit => onText v fun s =>
    require (.tooManyBytes s.utf8ByteSize) ((s.utf8ByteSize : Int) ≤ limit)
  | .startsWith text => onText v fun s =>
    require (.wrongStart s) (text.toList.isPrefixOf s.toList)
  | .is form => require (.differs v.form) (v.form == form)
  | .increasing => onNumber v fun n => match m.lastNumber? with
    | none => .accepted .null
    | some last => require (.notAfter (some last) n) (last < n)
  | .unique => require (.duplicate v.form) (!m.accepted.contains v.form)
  | .budget limit => require (.exhausted m.calls) ((m.accepted.length : Int) < limit)
  | .script verdicts => follow verdicts[m.calls]?
  | .all rules => judgeAll m v rules
  | .any rules => judgeAny m v [] rules
  | .not rule error => match judge m v rule with
    | .accepted _ => .rejected (.stated error)
    | .rejected _ => .accepted .null
    | .panicked p => .panicked p
  | .within rule text => (judge m v rule).mapError (.inContext text)
  | .insist rule => (judge m v rule).escalate Refusal.alarm

/-- All rules have to accept; the first that does not decides. -/
def judgeAll (m : Memory) (v : View) : List Rule → Ruling
  | [] => .accepted .null
  | rule :: rules => match judge m v rule with
    | .accepted _ => judgeAll m v rules
    | refused => refused

/-- One rule has to accept; the first that does decides, and without one all causes are told. -/
def judgeAny (m : Memory) (v : View) (causes : List Refusal) : List Rule → Ruling
  | [] => .rejected (.noAlternative causes.reverse)
  | rule :: rules => match judge m v rule with
    | .accepted payload => .accepted payload
    | .rejected cause => judgeAny m v (cause :: causes) rules
    | .panicked p => .panicked p

end

end Rule

end NominalBrand
