-- Why a rule refuses a value. A refusal is a cause; the document in which it
-- reaches the caller is made from it in one place.
import NominalBrand.Datum

namespace NominalBrand

inductive Refusal where
  | notInteger
  | notText
  /-- The rule states its error itself. -/
  | stated (error : Datum)
  | nonPositive (value : Int)
  | odd (value : Int)
  | tooSmall (value limit : Int)
  | tooLarge (value limit : Int)
  | emptyText
  | tooManyBytes (bytes : Nat)
  | wrongStart (text : String)
  | differs (form : Datum)
  | notAfter (last : Option Int) (value : Int)
  | duplicate (form : Datum)
  | exhausted (call : Nat)
  | noAlternative (causes : List Refusal)
  /-- The same cause, with a text that says where it arose. -/
  | inContext (text : String) (cause : Refusal)

namespace Refusal

mutual

def document : Refusal → Datum
  | .notInteger => .text "not an integer"
  | .notText => .text "not a text"
  | .stated error => error
  | .nonPositive n => .text ("Non-positive: " ++ Numeral.write n)
  | .odd n => .text ("odd: " ++ Numeral.write n)
  | .tooSmall n limit => .record [("value", .decimal n), ("min", .decimal limit)]
  | .tooLarge n limit => .record [("value", .decimal n), ("max", .decimal limit)]
  | .emptyText => .text "empty"
  | .tooManyBytes bytes => .record [("bytes", .ofNat bytes)]
  | .wrongStart s => .list [.text "no prefix", .text s]
  | .differs form => .list [.text "is", form]
  | .notAfter last n =>
    .record [("after", (last.map Datum.decimal).getD .null), ("got", .decimal n)]
  | .duplicate form => .record [("duplicate", form)]
  | .exhausted call => .record [("exhausted_at_call", .ofNat call)]
  | .noAlternative causes => .list (documents causes)
  | .inContext text cause => .record [("context", .text text), ("cause", cause.document)]

def documents : List Refusal → List Datum
  | [] => []
  | cause :: causes => cause.document :: documents causes

end

end Refusal

/-- The payload of a panic raised with a document; an empty one gets a standard text. -/
def Datum.alarm : Datum → Datum
  | .null => .text "assertion failed"
  | d => d

def Refusal.alarm (r : Refusal) : Datum := r.document.alarm

end NominalBrand
