-- Whole numbers in decimal: how one is written, and how text is read as one
-- that lies between two bounds. Digits are read from the left, and the first
-- character or the first partial value that does not fit decides the fault.

namespace NominalBrand

namespace Numeral

def bitSpan (bits : Nat) : Nat := Nat.pow 2 bits

/-! ## Writing -/

def digits : Int → List Char
  | .ofNat n => Nat.toDigits 10 n
  | .negSucc n => '-' :: Nat.toDigits 10 (n + 1)

def write (n : Int) : String := String.ofList (digits n)

/-! ## Reading -/

inductive Fault where
  | missing
  | badDigit
  | tooLarge
  | tooSmall
deriving DecidableEq

def Fault.message : Fault → String
  | .missing => "cannot parse integer from empty string"
  | .badDigit => "invalid digit found in string"
  | .tooLarge => "number too large to fit in target type"
  | .tooSmall => "number too small to fit in target type"

structure Bounds where
  low : Int
  high : Int
deriving DecidableEq

/-- The numbers of a count of bits, one of which is the sign. -/
def Bounds.signed (bits : Nat) : Bounds := ⟨-bitSpan (bits - 1), bitSpan (bits - 1) - 1⟩

def Bounds.unsigned (bits : Nat) : Bounds := ⟨0, bitSpan bits - 1⟩

def digit? (c : Char) : Option Nat :=
  if '0'.toNat ≤ c.toNat ∧ c.toNat ≤ '9'.toNat then some (c.toNat - '0'.toNat) else none

/-- Reads digits away from zero upwards. -/
def readUp (high : Int) (value : Int) : List Char → Except Fault Int
  | [] => .ok value
  | c :: cs => match digit? c with
    | none => .error .badDigit
    | some d =>
      if value * 10 + d ≤ high then readUp high (value * 10 + d) cs else .error .tooLarge

/-- Reads digits away from zero downwards. -/
def readDown (low : Int) (value : Int) : List Char → Except Fault Int
  | [] => .ok value
  | c :: cs => match digit? c with
    | none => .error .badDigit
    | some d =>
      if low ≤ value * 10 - d then readDown low (value * 10 - d) cs else .error .tooSmall

/-- Reads one optional sign and the digits after it; a sign by itself is a bad digit. -/
def read (b : Bounds) : List Char → Except Fault Int
  | [] => .error .missing
  | ['+'] => .error .badDigit
  | ['-'] => .error .badDigit
  | '+' :: cs => readUp b.high 0 cs
  | '-' :: cs => readDown b.low 0 cs
  | cs => readUp b.high 0 cs

def readText? (b : Bounds) (s : String) : Option Int := (read b s.toList).toOption

end Numeral

end NominalBrand
