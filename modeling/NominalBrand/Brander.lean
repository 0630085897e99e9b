-- Branders: what turns a base value into a branded one. A brander keeps a
-- validator as it was given, and reports each check of that validator that
-- came back. References to branders and to validators only pass requests on.
import NominalBrand.Check
import NominalBrand.Routine

namespace NominalBrand

/-- A validator as a brander stores it; functions are known by a handle. -/
inductive Validator (ι : Type) where
  | function (handle : ι)
  /-- A function that has no error to hand back: it accepts or panics. -/
  | infallible (handle : ι)
  | assertion (inner : Validator ι)
  | reference (target : Validator ι)
deriving DecidableEq

inductive Brander (ι : Type) where
  | identity (mark : Mark)
  | validated (mark : Mark) (validator : Validator ι)
  /-- Runs a check of the caller's own, outside any stored validator. -/
  | custom (mark : Mark) (handle : ι)
  | reference (target : Brander ι)
deriving DecidableEq

/-- What the handles of a run stand for. -/
structure Roster (ι σ ε π ρ β : Type) where
  /-- The type of the values that the function behind a handle takes. -/
  base : ι → TypeExpr
  judge : ι → β → Routine σ ε π ρ
  /-- The panic that an assertion raises in place of an error. -/
  alarm : ε → π
  /-- What a copy of a handle is: the same function, or one with state of its own. -/
  duplicate : ι → σ → ι × σ
  base_duplicate : ∀ h s, base (duplicate h s).1 = base h := by intros; rfl

variable {ι σ ε π ρ β : Type}

namespace Validator

def handle : Validator ι → ι
  | .function h => h
  | .infallible h => h
  | .assertion inner => inner.handle
  | .reference target => target.handle

def base (R : Roster ι σ ε π ρ β) (v : Validator ι) : TypeExpr := R.base v.handle

/-- What a stored validator does with a value. The alarm stands where a function would reject that
has no error to do it with. -/
def routine (R : Roster ι σ ε π ρ β) : Validator ι → β → Routine σ ε π ρ
  | .function h, v => R.judge h v
  | .infallible h, v => (R.judge h v).escalate R.alarm
  | .assertion inner, v => (inner.routine R v).escalate R.alarm
  | .reference target, v => target.routine R v

def neverRejects : Validator ι → Bool
  | .function _ => false
  | .infallible _ => true
  | .assertion _ => true
  | .reference target => target.neverRejects

def duplicate (R : Roster ι σ ε π ρ β) : Validator ι → σ → Validator ι × σ
  | .function h, s => let (h, s) := R.duplicate h s; (.function h, s)
  | .infallible h, s => let (h, s) := R.duplicate h s; (.infallible h, s)
  | .assertion inner, s => let (inner, s) := inner.duplicate R s; (.assertion inner, s)
  | .reference target, s => (.reference target, s)

@[simp] theorem base_duplicate (R : Roster ι σ ε π ρ β) (v : Validator ι) (s : σ) :
    (v.duplicate R s).1.base R = v.base R := by
  induction v with
  | function h | infallible h => exact R.base_duplicate h s
  | assertion inner ih => exact ih
  | reference target => rfl

/-- Runs a stored validator by itself, which no brander reports. -/
def run (R : Roster ι σ ε π ρ β) (tracing : Bool) (v : Validator ι) : Check σ ε π β :=
  fun value w =>
    let (o, w) := (v.routine R value).run tracing w
    (o.verdict, w)

end Validator

namespace Brander

def mark : Brander ι → Mark
  | .identity m => m
  | .validated m _ => m
  | .custom m _ => m
  | .reference target => target.mark

/-- The check of a brander. Only a stored validator reports, once, after it came back. -/
def check (R : Roster ι σ ε π ρ β) (tracing : Bool) : Brander ι → Check σ ε π β
  | .identity _ => Check.anything
  | .validated m validator => fun value w =>
    let (o, w) := (validator.routine R value).run tracing w
    (o.verdict, w.record tracing (m.brandOf (validator.base R)).name o)
  | .custom _ h => fun value w =>
    let (o, w) := (R.judge h value).run tracing w
    (o.verdict, w)
  | .reference target => target.check R tracing

def brand (R : Roster ι σ ε π ρ β) (tracing : Bool) (b : Brander ι) (value : β) :
    Action σ ε π (Brand b.mark β) := (b.check R tracing).brand b.mark value

def brandInPlace (R : Roster ι σ ε π ρ β) (tracing : Bool) (b : Brander ι) (value : β) :
    Action σ ε π (Brand b.mark β) := (b.check R tracing).brandInPlace b.mark value

def brandEach (R : Roster ι σ ε π ρ β) (tracing : Bool) (b : Brander ι) (values : List β) :
    Action σ ε π (List (Brand b.mark β)) := (b.check R tracing).brandEach b.mark values

def stored? : Brander ι → Option (Validator ι)
  | .identity _ => none
  | .validated _ validator => some validator
  | .custom _ _ => none
  | .reference target => target.stored?

/-- The validator that is left when a brander is used up. A borrowed brander cannot be. -/
def owned? : Brander ι → Option (Validator ι)
  | .validated _ validator => some validator
  | .identity _ => none
  | .custom _ _ => none
  | .reference _ => none

def isIdentity : Brander ι → Bool
  | .identity _ => true
  | .validated _ _ => false
  | .custom _ _ => false
  | .reference target => target.isIdentity

/-- Whether branding can be asked for without an error to answer for. -/
def isInfallible (b : Brander ι) : Bool :=
  b.isIdentity || (b.stored?.map Validator.neverRejects).getD false

def describe? : Brander ι → Option String
  | .identity _ => some "Identity"
  | .validated _ _ => some "Validated \x7b .. \x7d"
  | .custom _ _ => none
  | .reference target => target.describe?

/-- A copy of a brander. Copying a reference copies no brander. -/
def duplicate (R : Roster ι σ ε π ρ β) : Brander ι → σ → Brander ι × σ
  | .identity m, s => (.identity m, s)
  | .validated m validator, s => let (v, s) := validator.duplicate R s; (.validated m v, s)
  | .custom m h, s => let (h, s) := R.duplicate h s; (.custom m h, s)
  | .reference target, s => (.reference target, s)

def borrowed (b : Brander ι) : Nat → Brander ι
  | 0 => b
  | n + 1 => .reference (b.borrowed n)

/-- What a reference takes over from its target holds through any number of references. -/
theorem borrowed_induction {P : Brander ι → Prop} (hrefer : ∀ b, P b → P (.reference b))
    {b : Brander ι} (h : P b) (n : Nat) : P (b.borrowed n) := by
  induction n with
  | zero => exact h
  | succ n ih => exact hrefer _ ih

@[simp] theorem check_borrowed (R : Roster ι σ ε π ρ β) (tracing : Bool) (b : Brander ι) (n : Nat) :
    (b.borrowed n).check R tracing = b.check R tracing :=
  borrowed_induction (P := fun b' => b'.check R tracing = b.check R tracing) (fun _ h => h) rfl n

end Brander

end NominalBrand
