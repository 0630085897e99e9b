-- Scope programs without brands: the same instructions carried out on bare
-- values, with nothing copied and nothing marked. Over a base whose copies
-- are the value itself, this is all that a caller can see of a program.
import NominalBrand.ScopeProgram

namespace NominalBrand.ScopeProgram

variable {β : Type}

def bothBare (values : List β) (left right : Nat) (ask : β → β → Item β) : Item β :=
  match values[left]?, values[right]? with
  | some a, some b => ask a b
  | _, _ => .absent

def shownBare (c : Capabilities β) (values : List β) : Item β :=
  match c.debug with
  | some r => .text (Text.Rendering.list r {} values).value
  | none => .absent

mutual

/-- What one instruction puts out over bare values, and the values held after it. -/
def performBare (c : Capabilities β) : Instruction β → List β → List β → List (Item β) × List β
  | .call v, _, values => ([], values ++ [v])
  | .brand v, _, values => ([], values ++ [v])
  | .slice vs, _, values => ([], values ++ vs)
  | .bring i, outer, values => match outer[i]? with
    | some v => ([], values ++ [v])
    | none => ([.absent], values)
  | .putOut i, _, values => match values[i]? with
    | some v => ([.value v], values)
    | none => ([.absent], values)
  | .eq i j, _, values =>
    ([bothBare values i j fun a b => .truth (c.comparison.eq a b).value], values)
  | .cmp i j, _, values =>
    ([bothBare values i j fun a b => .ordering (c.comparison.partialCmp a b).value], values)
  | .sum, _, values => ([.total (sum c values)], values)
  | .size, _, values => ([.count values.length], values)
  | .text, _, values => ([shownBare c values], values)
  | .scope program, _, values => ([.nested (performAllBare c program values [])], values)

def performAllBare (c : Capabilities β) : List (Instruction β) → List β → List β → List (Item β)
  | [], _, _ => []
  | i :: rest, outer, values =>
    let (items, values) := performBare c i outer values
    items ++ performAllBare c rest outer values

end

def runBare (c : Capabilities β) (program : List (Instruction β)) : List (Item β) :=
  performAllBare c program [] []

end NominalBrand.ScopeProgram
