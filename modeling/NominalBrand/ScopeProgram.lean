-- Scope programs. Each scope brands values with a mark that no scope around
-- it has, so its values cannot meet those of another scope. A nested scope
-- gets bare copies of the values around it, and hands back only what it puts
-- out.
import NominalBrand.Capabilities
import NominalBrand.Check

namespace NominalBrand

inductive Instruction (β : Type) where
  | call (value : β)
  | brand (value : β)
  /-- Brands a list where it stands, and keeps copies of its values. -/
  | slice (values : List β)
  /-- Takes over a value of the scope around this one. -/
  | bring (index : Nat)
  /-- Puts out a copy of a value, without its brand. -/
  | putOut (index : Nat)
  | eq (left right : Nat)
  | cmp (left right : Nat)
  | sum
  | size
  | text
  /-- Runs a program in a scope of its own, and puts out the list of what it puts out. -/
  | scope (program : List (Instruction β))

inductive Item (β : Type) where
  | absent
  | value (v : β)
  | truth (b : Bool)
  | ordering (o : Option Ordering)
  | total (n : Int)
  | count (n : Nat)
  | text (s : String)
  | nested (items : List (Item β))

namespace ScopeProgram

variable {β : Type}

/-- Sums wrap around at 128 bits with a sign. -/
def sumBits : Nat := 128

/-- The sum of the numbers that values have; values without one are passed over. -/
def sum (c : Capabilities β) (values : List β) : Int :=
  let numbers := values.filterMap fun v => (c.view v).number
  Int.bmod (numbers.foldl (· + ·) 0) (Numeral.bitSpan sumBits)

/-- Brands a value through the brander of a scope. It accepts everything, so nothing else can come
of it. -/
def branded (depth : Nat) (value : β) : Brand depth β :=
  match Check.brand (Check.anything : Check Unit Empty Empty β) depth value ⟨(), []⟩ with
  | (.accepted v, _) => v

/-- Bare copies of the values of a scope, as a scope inside it gets them. -/
def bareCopies (c : Capabilities β) (depth : Nat) (values : List (Brand depth β)) : List β :=
  values.map fun v => ((c.brand depth).copy v).value.base

def both {depth : Nat} (values : List (Brand depth β)) (left right : Nat)
    (ask : Brand depth β → Brand depth β → Item β) : Item β :=
  match values[left]?, values[right]? with
  | some a, some b => ask a b
  | _, _ => .absent

def shown (c : Capabilities β) (depth : Nat) (values : List (Brand depth β)) : Item β :=
  match (c.brand depth).debug with
  | some r => .text (Text.Rendering.list r {} values).value
  | none => .absent

mutual

/-- What one instruction puts out, and the values that the scope holds after it. -/
def perform (c : Capabilities β) : Instruction β → (depth : Nat) → List β →
    List (Brand depth β) → List (Item β) × List (Brand depth β)
  | .call v, _, _, values => ([], values ++ [⟨v⟩])
  | .brand v, depth, _, values => ([], values ++ [branded depth v])
  | .slice vs, depth, _, values =>
    ([], values ++ (Brand.ofList depth vs).map fun v => ((c.brand depth).copy v).value)
  | .bring i, _, outer, values => match outer[i]? with
    | some v => ([], values ++ [⟨(c.copy v).value⟩])
    | none => ([.absent], values)
  | .putOut i, depth, _, values => match values[i]? with
    | some v => ([.value ((c.brand depth).copy v).value.base], values)
    | none => ([.absent], values)
  | .eq i j, depth, _, values =>
    ([both values i j fun a b => .truth ((c.brand depth).comparison.eq a b).value], values)
  | .cmp i j, depth, _, values =>
    ([both values i j fun a b => .ordering ((c.brand depth).comparison.partialCmp a b).value],
      values)
  | .sum, _, _, values => ([.total (sum c (Brand.bases values))], values)
  | .size, _, _, values => ([.count values.length], values)
  | .text, depth, _, values => ([shown c depth values], values)
  | .scope program, depth, _, values =>
    ([.nested (performAll c program (depth + 1) (bareCopies c depth values) [])], values)

def performAll (c : Capabilities β) : List (Instruction β) → (depth : Nat) → List β →
    List (Brand depth β) → List (Item β)
  | [], _, _, _ => []
  | i :: rest, depth, outer, values =>
    let (items, values) := perform c i depth outer values
    items ++ performAll c rest depth outer values

end

def run (c : Capabilities β) (program : List (Instruction β)) : List (Item β) :=
  performAll c program 0 [] []

end ScopeProgram

end NominalBrand
