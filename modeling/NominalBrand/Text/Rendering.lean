-- Showing values. A rendering gives a value's text under a style; containers
-- pass the style on to each of their items, and a brand passes it on to its
-- base and adds nothing.
import NominalBrand.Brand
import NominalBrand.CallLog
import NominalBrand.Numeral
import NominalBrand.Text.Quoted
import NominalBrand.Text.Style

namespace NominalBrand.Text

abbrev Rendering (β : Type) : Type := Style → β → Logged String

namespace Rendering

variable {α β μ : Type}

/-! ## Single values -/

def unit : Rendering Unit := fun s _ => .silent (s.pad "()")

def bool : Rendering Bool := fun s b => .silent (s.pad (if b then "true" else "false"))

def char : Rendering Char := fun s c => .silent (s.pad (String.singleton c))

def quotedChar : Rendering Char := fun _ c => .silent (quoted singleQuote [c])

def text : Rendering String := fun s t => .silent (s.pad t)

def quotedText : Rendering String := fun _ t => .silent (quoted doubleQuote t.toList)

def decimal (s : Style) (n : Int) : String :=
  s.padNumber (n < 0) "" (Numeral.write n.natAbs)

/-- The hexadecimal digits of a number in a fixed count of bits, negative ones from the top. -/
def hexDigits (bits : Nat) (letters : LetterCase) (n : Int) : String :=
  let digits := Nat.toDigits 16 (n % Numeral.bitSpan bits).toNat
  match letters with
  | .lower => String.ofList digits
  | .upper => String.ofList (digits.map Char.toUpper)

def number (bits : Nat) (s : Style) (n : Int) : String :=
  match s.hex with
  | none => decimal s n
  | some letters => s.padNumber false "0x" (hexDigits bits letters n)

/-! ## Containers and brands -/

def brand (r : Rendering β) (mark : μ) : Rendering (Brand mark β) := fun s v => r s v.base

def parts (s : Style) (name : String) (items : List String) : String :=
  s.enclose (name ++ "(") ")" items

def option (r : Rendering β) : Rendering (Option β) := fun s v =>
  match v with
  | none => .silent "None"
  | some v => do return parts s "Some" [← r s v]

def list (r : Rendering β) : Rendering (List β) := fun s vs => do
  return s.enclose "[" "]" (← Logged.each (r s) vs)

def pair (r : Rendering α) (q : Rendering β) : Rendering (α × β) := fun s v => do
  return parts s "" [← r s v.1, ← q s v.2]

end Rendering

end NominalBrand.Text
