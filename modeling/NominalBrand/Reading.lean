-- Reading positive numbers: text is trimmed, read as a number of 64 bits
-- with a sign, and branded as positive. Either the numeral or the check may
-- refuse; a text that is no numeral never reaches the check.
import NominalBrand.Blank
import NominalBrand.Session

namespace NominalBrand

inductive ReadFault where
  | numeral (fault : Numeral.Fault)
  | refused (cause : Refusal)

namespace Reading

def positiveMark : Mark := ⟨.named "Positive", .defaultField⟩

def positive : Session Int where
  base := .named "i64"
  view n := ⟨some n, none, .decimal n⟩
  mark := positiveMark
  wiring := .shared
  rule := .positive

def positiveBrander : Brander Handle := positive.wiring.brander positiveMark

/-- Tells a refusal of the check apart from a fault of the numeral. -/
def asFault {σ π α : Type} (m : Action σ Refusal π α) : Action σ ReadFault π α := fun w =>
  let (o, w) := m w
  (o.mapError .refused, w)

/-- Reads a positive number from a text, blank characters around it left out. -/
def readPositive (tracing : Bool) (text : String) :
    Action (Ledger Int) ReadFault Datum (Brand positiveBrander.mark Int) :=
  match Numeral.read (.signed 64) (Blank.trim text.toList) with
  | .error fault => .done (.rejected (.numeral fault))
  | .ok n => asFault (positiveBrander.brand positive.roster tracing n)

end Reading

end NominalBrand
