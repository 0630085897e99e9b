-- Floating-point numbers of 64 bits, known by their bits. Comparing them
-- needs no arithmetic: below the sign bit, larger bits are a larger number.
import NominalBrand.Capabilities

namespace NominalBrand

structure Double where
  bits : UInt64
deriving DecidableEq

namespace Double

def magnitude (v : Double) : Nat := v.bits.toNat % Numeral.bitSpan 63

def isNegative (v : Double) : Bool := Numeral.bitSpan 63 ≤ v.bits.toNat

/-- The magnitude of an infinity: every exponent bit is set and nothing else. -/
def infinity : Nat := 0x7ff0000000000000

def isNaN (v : Double) : Bool := infinity < v.magnitude

/-- A whole number that is ordered as the floating-point number is; both zeros give zero. -/
def rank (v : Double) : Int := if v.isNegative then -v.magnitude else v.magnitude

/-- Equality: nothing equals what is no number. -/
def eq (a b : Double) : Bool := !a.isNaN && !b.isNaN && a.rank == b.rank

/-- Order: what is no number has none. -/
def partialCmp (a b : Double) : Option Ordering :=
  if a.isNaN || b.isNaN then none else some (compare a.rank b.rank)

def hexDigit? (c : Char) : Option Nat :=
  if '0'.toNat ≤ c.toNat ∧ c.toNat ≤ '9'.toNat then some (c.toNat - '0'.toNat)
  else if 'a'.toNat ≤ c.toNat ∧ c.toNat ≤ 'f'.toNat then some (c.toNat - 'a'.toNat + 10)
  else none

def read? : Datum → Option Double
  | .text s => do
    if s.length = 16 then
      let digits ← s.toList.mapM hexDigit?
      some ⟨UInt64.ofNat (digits.foldl (fun n d => n * 16 + d) 0)⟩
    else none
  | _ => none

def hex (v : Double) : String :=
  let digits := Nat.toDigits 16 v.bits.toNat
  String.ofList (List.replicate (16 - digits.length) '0' ++ digits)

def capabilities : Capabilities Double where
  comparison := .derived (fun a b => .silent (eq a b)) (fun a b => .silent (partialCmp a b))
  ranking := none
  feed := none
  copy := .silent
  debug := none
  display := none
  view v := ⟨none, none, .text v.hex⟩

end Double

end NominalBrand
