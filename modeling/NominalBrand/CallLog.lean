-- Calls to a base. A base may do more than answer when it is compared,
-- copied or shown, so every such call leaves its name in a log, and code
-- that asks a base several times puts the logs one after the other.

namespace NominalBrand

inductive BaseCall where
  | eq
  | ne
  | partialCmp
  | lt
  | le
  | gt
  | ge
  | cmp
  | hash
  | clone
  | debug
  | display
deriving DecidableEq

def BaseCall.name : BaseCall → String
  | .eq => "eq"
  | .ne => "ne"
  | .partialCmp => "partial_cmp"
  | .lt => "lt"
  | .le => "le"
  | .gt => "gt"
  | .ge => "ge"
  | .cmp => "cmp"
  | .hash => "hash"
  | .clone => "clone"
  | .debug => "debug"
  | .display => "display"

/-- An answer, with the calls that were made to find it, in order. -/
structure Logged (α : Type) where
  value : α
  calls : List BaseCall
deriving DecidableEq

namespace Logged

variable {α α' : Type}

def silent (a : α) : Logged α := ⟨a, []⟩

def byCall (call : BaseCall) (a : α) : Logged α := ⟨a, [call]⟩

def map (f : α → α') (x : Logged α) : Logged α' := ⟨f x.value, x.calls⟩

def andThen (x : Logged α) (f : α → Logged α') : Logged α' :=
  ⟨(f x.value).value, x.calls ++ (f x.value).calls⟩

instance : Monad Logged where
  pure := silent
  bind := andThen
  map := map

def each (f : α → Logged α') : List α → Logged (List α')
  | [] => silent []
  | a :: as => do
    let first ← f a
    let rest ← each f as
    return first :: rest

@[simp] theorem value_pure (a : α) : (pure a : Logged α).value = a := rfl

@[simp] theorem calls_pure (a : α) : (pure a : Logged α).calls = [] := rfl

@[simp] theorem value_bind (x : Logged α) (f : α → Logged α') :
    (x >>= f).value = (f x.value).value := rfl

@[simp] theorem calls_bind (x : Logged α) (f : α → Logged α') :
    (x >>= f).calls = x.calls ++ (f x.value).calls := rfl

theorem value_each (f : α → Logged α') (as : List α) :
    (each f as).value = as.map fun a => (f a).value := by
  induction as with
  | nil => rfl
  | cons a as ih => simp only [each, value_bind, value_pure, List.map_cons, ih]

theorem calls_each (f : α → Logged α') (as : List α) :
    (each f as).calls = as.flatMap fun a => (f a).calls := by
  induction as with
  | nil => rfl
  | cons a as ih => simp only [each, calls_bind, calls_pure, List.append_nil, List.flatMap_cons, ih]

theorem each_map {γ : Type} {f : α → Logged γ} {g : α' → Logged γ} {φ : α → α'}
    (h : ∀ a, f a = g (φ a)) (as : List α) : each f as = each g (as.map φ) := by
  induction as with
  | nil => rfl
  | cons a as ih => simp only [each, List.map_cons, h, ih]

end Logged

end NominalBrand
