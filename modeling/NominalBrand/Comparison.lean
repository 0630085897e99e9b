-- Comparing values. A base brings its own seven comparisons and they need
-- not agree with one another. A brand takes over equality and the partial
-- order of its base, and makes the other five from these two.
import NominalBrand.Brand
import NominalBrand.CallLog

namespace NominalBrand

/-- The seven comparisons of a type whose order may be partial. -/
structure Comparison (β : Type) where
  eq : β → β → Logged Bool
  ne : β → β → Logged Bool
  partialCmp : β → β → Logged (Option Ordering)
  lt : β → β → Logged Bool
  le : β → β → Logged Bool
  gt : β → β → Logged Bool
  ge : β → β → Logged Bool

abbrev Ranking (β : Type) : Type := β → β → Logged Ordering

/-! ## Reading an operator off a partial order -/

def isBelow (o : Option Ordering) : Bool := o == some .lt

def isAtMost (o : Option Ordering) : Bool := o == some .lt || o == some .eq

def isAbove (o : Option Ordering) : Bool := o == some .gt

def isAtLeast (o : Option Ordering) : Bool := o == some .gt || o == some .eq

namespace Comparison

variable {α β μ : Type}

/-- The comparisons that follow from equality and a partial order alone. -/
def derived (eq : β → β → Logged Bool) (partialCmp : β → β → Logged (Option Ordering)) :
    Comparison β where
  eq := eq
  ne a b := (eq a b).map not
  partialCmp := partialCmp
  lt a b := (partialCmp a b).map isBelow
  le a b := (partialCmp a b).map isAtMost
  gt a b := (partialCmp a b).map isAbove
  ge a b := (partialCmp a b).map isAtLeast

/-- The comparisons of a brand: equality and order of the base, and what follows from them. -/
def brand (c : Comparison β) (mark : μ) : Comparison (Brand mark β) :=
  derived (fun a b => c.eq a.base b.base) (fun a b => c.partialCmp a.base b.base)

def ofOrder (cmp : β → β → Ordering) : Comparison β :=
  derived (fun a b => .silent (cmp a b == .eq)) (fun a b => .silent (some (cmp a b)))

/-- Whether the five other comparisons of a base say what its equality and order say. -/
def Agrees (c : Comparison β) : Prop :=
  ∀ a b, (c.ne a b).value = !(c.eq a b).value ∧
    (c.lt a b).value = isBelow (c.partialCmp a b).value ∧
    (c.le a b).value = isAtMost (c.partialCmp a b).value ∧
    (c.gt a b).value = isAbove (c.partialCmp a b).value ∧
    (c.ge a b).value = isAtLeast (c.partialCmp a b).value

/-! ## Optional values: an absent one is equal to itself and below all others -/

def optionEq (c : Comparison β) : Option β → Option β → Logged Bool
  | some a, some b => c.eq a b
  | none, none => .silent true
  | _, _ => .silent false

def optionCmp (c : Comparison β) : Option β → Option β → Logged (Option Ordering)
  | some a, some b => c.partialCmp a b
  | some _, none => .silent (some .gt)
  | none, some _ => .silent (some .lt)
  | none, none => .silent (some .eq)

def option (c : Comparison β) : Comparison (Option β) := derived c.optionEq c.optionCmp

/-! ## Lists: by their first difference, and by length when one starts the other -/

/-- Whether no pair of elements differs; lists of the same length are meant. -/
def noneDiffers (c : Comparison β) : List β → List β → Logged Bool
  | a :: as, b :: bs => do
    if ← c.ne a b then return false else c.noneDiffers as bs
  | _, _ => .silent true

def listEq (c : Comparison β) (as bs : List β) : Logged Bool :=
  if as.length = bs.length then c.noneDiffers as bs else .silent false

/-- Order of lists: the first pair that is not level decides, also when it has no order. -/
def listCmp (c : Comparison β) : List β → List β → Logged (Option Ordering)
  | [], [] => .silent (some .eq)
  | [], _ :: _ => .silent (some .lt)
  | _ :: _, [] => .silent (some .gt)
  | a :: as, b :: bs => do
    match ← c.partialCmp a b with
    | some .eq => c.listCmp as bs
    | decided => return decided

def list (c : Comparison β) : Comparison (List β) := derived c.listEq c.listCmp

def startsWith (c : Comparison β) (as bs : List β) : Logged Bool :=
  if bs.length ≤ as.length then c.listEq bs (as.take bs.length) else .silent false

/-! ## Pairs: by the first part, and by the second when the first parts are level -/

def pairCmp (c : Comparison α) (d : Comparison β) (a b : α × β) : Logged (Option Ordering) := do
  match ← c.partialCmp a.1 b.1 with
  | some .eq => d.partialCmp a.2 b.2
  | decided => return decided

/-- An operator on pairs: level first parts leave it to the second parts' own operator. -/
def pairBy (c : Comparison α) (decisive : Ordering) (last : β → β → Logged Bool) (a b : α × β) :
    Logged Bool := do
  match ← c.partialCmp a.1 b.1 with
  | some .eq => last a.2 b.2
  | decided => return decided == some decisive

def pair (c : Comparison α) (d : Comparison β) : Comparison (α × β) where
  eq a b := do if ← c.eq a.1 b.1 then d.eq a.2 b.2 else return false
  ne a b := do if ← c.ne a.1 b.1 then return true else d.ne a.2 b.2
  partialCmp := pairCmp c d
  lt := pairBy c .lt d.lt
  le := pairBy c .lt d.le
  gt := pairBy c .gt d.gt
  ge := pairBy c .gt d.ge

end Comparison

/-! ## Total orders -/

namespace Ranking

variable {α β μ : Type}

def order (r : Ranking β) (a b : β) : Ordering := (r a b).value

def ofOrder (cmp : β → β → Ordering) : Ranking β := fun a b => .silent (cmp a b)

def brand (r : Ranking β) (mark : μ) : Ranking (Brand mark β) := fun a b => r a.base b.base

def option (r : Ranking β) : Ranking (Option β)
  | some a, some b => r a b
  | some _, none => .silent .gt
  | none, some _ => .silent .lt
  | none, none => .silent .eq

def list (r : Ranking β) : Ranking (List β)
  | [], [] => .silent .eq
  | [], _ :: _ => .silent .lt
  | _ :: _, [] => .silent .gt
  | a :: as, b :: bs => do
    match ← r a b with
    | .eq => list r as bs
    | decided => return decided

def pair (r : Ranking α) (q : Ranking β) : Ranking (α × β) := fun a b => do
  match ← r a.1 b.1 with
  | .eq => q a.2 b.2
  | decided => return decided

end Ranking

/-! ## Asking for comparisons by name -/

inductive Operator where
  | eq
  | ne
  | lt
  | le
  | gt
  | ge
  | partialCmp
  | cmp
deriving DecidableEq

inductive Reply where
  | truth (b : Bool)
  | ordering (o : Option Ordering)
  | unsupported
deriving DecidableEq

namespace Operator

variable {β : Type}

/-- Asks one operator about two values; only a type with a total order can be ranked. -/
def ask (c : Comparison β) (r : Option (Ranking β)) (a b : β) : Operator → Logged Reply
  | .eq => (c.eq a b).map .truth
  | .ne => (c.ne a b).map .truth
  | .lt => (c.lt a b).map .truth
  | .le => (c.le a b).map .truth
  | .gt => (c.gt a b).map .truth
  | .ge => (c.ge a b).map .truth
  | .partialCmp => (c.partialCmp a b).map .ordering
  | .cmp => match r with
    | some r => (r a b).map fun o => .ordering (some o)
    | none => .silent .unsupported

def askAll (c : Comparison β) (r : Option (Ranking β)) (a b : β) (ops : List Operator) :
    Logged (List Reply) := Logged.each (ask c r a b) ops

end Operator

end NominalBrand
