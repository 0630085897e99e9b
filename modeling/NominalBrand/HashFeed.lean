-- What values feed to a hasher: a sequence of bytes, numbers with their low
-- byte first. A type may feed a row of its values in a way of its own. A brand
-- feeds the bytes of its base, and a row of brands value by value.
import NominalBrand.Brand
import NominalBrand.CallLog

namespace NominalBrand

/-- The bytes that a type's values feed to a hasher, one by one and many in a row. Nothing keeps
the two together: a row may feed other bytes than its values do in turn. -/
structure HashFeed (β : Type) where
  one : β → Logged (List UInt8)
  many : List β → Logged (List UInt8)

namespace HashFeed

variable {α β μ : Type}

/-- A row feeds what its values feed in turn, as it does for a type that does not say otherwise. -/
def ofOne (one : β → Logged (List UInt8)) : HashFeed β where
  one := one
  many vs := do return (← Logged.each one vs).flatten

def Agrees (feed : HashFeed β) : Prop :=
  ∀ vs, (feed.many vs).value = vs.flatMap fun v => (feed.one v).value

theorem agrees_ofOne (one : β → Logged (List UInt8)) : (ofOne one).Agrees := by
  intro vs
  simp only [ofOne, Logged.value_bind, Logged.value_pure, Logged.value_each, List.flatMap_def]

/-- A number in a fixed count of bytes, the low byte first; higher bits are dropped. -/
def littleEndian : Nat → Nat → List UInt8
  | 0, _ => []
  | count + 1, n => UInt8.ofNat n :: littleEndian count (n / 256)

/-- A text feeds its bytes and an end mark that no text contains. -/
def text : HashFeed String := .ofOne fun s => .silent (s.toUTF8.data.toList ++ [0xff])

def char : HashFeed Char := .ofOne fun c => .silent (littleEndian 4 c.toNat)

def bool : HashFeed Bool := .ofOne fun b => .silent [if b then 1 else 0]

/-- A brand feeds what its base feeds. The way in which the base feeds a row is not taken over. -/
def brand (feed : HashFeed β) (mark : μ) : HashFeed (Brand mark β) :=
  .ofOne fun v => feed.one v.base

def option (feed : HashFeed β) : HashFeed (Option β) := .ofOne fun
  | none => .silent (littleEndian 8 0)
  | some v => do return littleEndian 8 1 ++ (← feed.one v)

/-- A list feeds its length, then its elements as a row. -/
def list (feed : HashFeed β) : HashFeed (List β) := .ofOne fun vs => do
  return littleEndian 8 vs.length ++ (← feed.many vs)

def pair (feed : HashFeed α) (feed' : HashFeed β) : HashFeed (α × β) := .ofOne fun v => do
  return (← feed.one v.1) ++ (← feed'.one v.2)

def hexByte (b : UInt8) : List Char :=
  [Nat.digitChar (b.toNat / 16), Nat.digitChar (b.toNat % 16)]

def hex (bytes : List UInt8) : String := String.ofList (bytes.flatMap hexByte)

end HashFeed

end NominalBrand
