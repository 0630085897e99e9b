-- Quoted text: characters and strings between quotes, with escapes for the
-- quote, the backslash, and whatever would not be seen between the quotes.
import NominalBrand.Text.Combining
import NominalBrand.Text.Ignorable
import NominalBrand.Text.Unprintable

namespace NominalBrand.Text

def doubleQuote : Char := Char.ofNat 0x22

def singleQuote : Char := Char.ofNat 0x27

def backslash : Char := Char.ofNat 0x5c

/-- An escape that gives the code point in lower-case hexadecimal. -/
def codePointEscape (c : Char) : List Char :=
  "\\u\x7b".toList ++ Nat.toDigits 16 c.toNat ++ "\x7d".toList

def escaped (quote c : Char) : List Char :=
  if c.toNat = 0 then [backslash, '0']
  else if c = '\t' then [backslash, 't']
  else if c = '\n' then [backslash, 'n']
  else if c = '\r' then [backslash, 'r']
  else if c = backslash ∨ c = quote then [backslash, c]
  else if isCombining c || isIgnorable c || isUnprintable c then codePointEscape c
  else [c]

def quoted (quote : Char) (cs : List Char) : String :=
  String.ofList (quote :: cs.flatMap (escaped quote) ++ [quote])

end NominalBrand.Text
