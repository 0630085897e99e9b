-- How a value is to be shown: alignment in a width, a limit on characters,
-- signs, leading zeros, hexadecimal, and the form that takes several lines.

namespace NominalBrand.Text

inductive Alignment where
  | left
  | right
  | center
deriving DecidableEq

inductive LetterCase where
  | lower
  | upper
deriving DecidableEq

structure Style where
  fill : Char := ' '
  alignment : Option Alignment := none
  plus : Bool := false
  /-- Spread containers over several lines, and mark hexadecimal numbers. -/
  alternate : Bool := false
  /-- Fill numbers up with zeros after their sign. -/
  zeroPad : Bool := false
  width : Option Nat := none
  precision : Option Nat := none
  hex : Option LetterCase := none
deriving DecidableEq

namespace Style

/-! ## Reading flags -/

def alignment? : Char → Option Alignment
  | '<' => some .left
  | '>' => some .right
  | '^' => some .center
  | _ => none

/-- Reads an optional alignment, with an optional fill character before it. -/
def readAlignment (s : Style) : List Char → Style × List Char
  | [] => (s, [])
  | [a] => match alignment? a with
    | some al => ({ s with alignment := some al }, [])
    | none => (s, [a])
  | f :: a :: rest => match alignment? a, alignment? f with
    | some al, _ => ({ s with fill := f, alignment := some al }, rest)
    | none, some al => ({ s with alignment := some al }, a :: rest)
    | none, none => (s, f :: a :: rest)

def readPlus (s : Style) : List Char → Style × List Char
  | '+' :: rest => ({ s with plus := true }, rest)
  | rest => (s, rest)

def readAlternate (s : Style) : List Char → Style × List Char
  | '#' :: rest => ({ s with alternate := true }, rest)
  | rest => (s, rest)

def readZeroPad (s : Style) : List Char → Style × List Char
  | '0' :: rest => ({ s with zeroPad := true }, rest)
  | rest => (s, rest)

/-- Reads flags: alignment, plus, alternate form, leading zeros, in this order and each optional. -/
def ofFlags? (flags : String) : Option Style :=
  let (s, rest) := readAlignment {} flags.toList
  let (s, rest) := readPlus s rest
  let (s, rest) := readAlternate s rest
  let (s, rest) := readZeroPad s rest
  if rest.isEmpty then some s else none

/-! ## Padding -/

/-- A text in the wished width, at `standard` where no alignment is wished. -/
def fit (s : Style) (standard : Alignment) (text : String) : String :=
  match s.width with
  | none => text
  | some width =>
    let missing := width - text.length
    let before := match s.alignment.getD standard with
      | .left => 0
      | .right => missing
      | .center => missing / 2
    String.ofList (List.replicate before s.fill) ++ text ++
      String.ofList (List.replicate (missing - before) s.fill)

/-- A text cut to the wished number of characters, then put at the left of its width. -/
def pad (s : Style) (text : String) : String :=
  match s.precision with
  | none => s.fit .left text
  | some limit => s.fit .left (String.ofList (text.toList.take limit))

def padNumber (s : Style) (negative : Bool) (marker digits : String) : String :=
  let sign := if negative then "-" else if s.plus then "+" else ""
  let lead := sign ++ (if s.alternate then marker else "")
  if s.zeroPad then
    let missing := s.width.getD 0 - (lead ++ digits).length
    lead ++ String.ofList (List.replicate missing '0') ++ digits
  else s.fit .right (lead ++ digits)

/-! ## Containers -/

def indentFrom (lineStart : Bool) : List Char → List Char
  | [] => []
  | c :: cs =>
    (if lineStart then [' ', ' ', ' ', ' '] else []) ++ c :: indentFrom (c == '\n') cs

def itemLines (item : String) : String := String.ofList (indentFrom true (item ++ ",\n").toList)

def enclose (s : Style) (opening closing : String) (items : List String) : String :=
  if s.alternate && !items.isEmpty then
    opening ++ "\n" ++ String.join (items.map itemLines) ++ closing
  else opening ++ ", ".intercalate items ++ closing

end Style

end NominalBrand.Text
