-- Whole numbers of a fixed width, with or without a sign.
import NominalBrand.Capabilities

namespace NominalBrand

/-- The width of whole numbers: a count of bits, one of which may be the sign. -/
structure Width where
  signed : Bool
  bits : Nat
deriving DecidableEq

namespace Width

def bounds (w : Width) : Numeral.Bounds :=
  if w.signed then .signed w.bits else .unsigned w.bits

end Width

structure Whole (w : Width) where
  value : Int
  fits : w.bounds.low ≤ value ∧ value ≤ w.bounds.high
deriving DecidableEq

namespace Whole

variable {w : Width}

def ofInt? (w : Width) (n : Int) : Option (Whole w) :=
  if h : w.bounds.low ≤ n ∧ n ≤ w.bounds.high then some ⟨n, h⟩ else none

def read? (w : Width) : Datum → Option (Whole w)
  | .text s => (Numeral.readText? w.bounds s).bind (ofInt? w)
  | _ => none

def order (a b : Whole w) : Ordering := compare a.value b.value

/-- A number as far as 128 bits with a sign can hold it. -/
def number? (n : Whole w) : Option Int :=
  if n.value ≤ (Numeral.Bounds.signed 128).high then some n.value else none

def bytes (n : Whole w) : List UInt8 :=
  HashFeed.littleEndian (w.bits / 8) (n.value % Numeral.bitSpan w.bits).toNat

/-- Whole numbers feed a row of them as one run of bytes. -/
def feed (w : Width) : HashFeed (Whole w) where
  one n := .silent n.bytes
  many ns := .silent (ns.flatMap bytes)

theorem agrees_feed (w : Width) : (feed w).Agrees := fun _ => rfl

def capabilities (w : Width) : Capabilities (Whole w) where
  comparison := .ofOrder order
  ranking := some (.ofOrder order)
  feed := some (feed w)
  copy := .silent
  debug := some fun s n => .silent (Text.Rendering.number w.bits s n.value)
  display := some fun s n => .silent (Text.Rendering.decimal s n.value)
  view n := ⟨n.number?, none, .decimal n.value⟩

end Whole

end NominalBrand
