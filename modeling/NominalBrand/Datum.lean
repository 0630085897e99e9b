-- Documents: the data in which base values are written down, in which a
-- rule may state its error, and which a panic may carry as its payload.
import NominalBrand.Numeral

namespace NominalBrand

/-- A document. A number is its mantissa with the point moved left by the exponent. -/
inductive Datum where
  | null
  | truth (b : Bool)
  | number (mantissa : Int) (exponent : Nat)
  | text (s : String)
  | list (items : List Datum)
  | record (fields : List (String × Datum))

namespace Datum

mutual

def same : Datum → Datum → Bool
  | .null, .null => true
  | .truth a, .truth b => a == b
  | .number m e, .number m' e' => m == m' && e == e'
  | .text a, .text b => a == b
  | .list as, .list bs => sameItems as bs
  | .record as, .record bs => sameFields as bs
  | _, _ => false

def sameItems : List Datum → List Datum → Bool
  | [], [] => true
  | a :: as, b :: bs => same a b && sameItems as bs
  | _, _ => false

def sameFields : List (String × Datum) → List (String × Datum) → Bool
  | [], [] => true
  | (k, a) :: as, (k', b) :: bs => k == k' && same a b && sameFields as bs
  | _, _ => false

end

instance : Inhabited Datum := ⟨.null⟩

instance : BEq Datum := ⟨same⟩

mutual

theorem same_iff : ∀ a b : Datum, same a b = true ↔ a = b
  | .list as, .list bs => by simp [same, sameItems_iff as bs]
  | .record as, .record bs => by simp [same, sameFields_iff as bs]
  | .null, b => by cases b <;> simp [same]
  | .truth _, b => by cases b <;> simp [same]
  | .number _ _, b => by cases b <;> simp [same]
  | .text _, b => by cases b <;> simp [same]
  | .list _, .null => by simp [same]
  | .list _, .truth _ => by simp [same]
  | .list _, .number _ _ => by simp [same]
  | .list _, .text _ => by simp [same]
  | .list _, .record _ => by simp [same]
  | .record _, .null => by simp [same]
  | .record _, .truth _ => by simp [same]
  | .record _, .number _ _ => by simp [same]
  | .record _, .text _ => by simp [same]
  | .record _, .list _ => by simp [same]

theorem sameItems_iff : ∀ as bs : List Datum, sameItems as bs = true ↔ as = bs
  | [], [] => by simp [sameItems]
  | [], _ :: _ => by simp [sameItems]
  | _ :: _, [] => by simp [sameItems]
  | a :: as, b :: bs => by simp [sameItems, same_iff a b, sameItems_iff as bs]

theorem sameFields_iff :
    ∀ as bs : List (String × Datum), sameFields as bs = true ↔ as = bs
  | [], [] => by simp [sameFields]
  | [], _ :: _ => by simp [sameFields]
  | _ :: _, [] => by simp [sameFields]
  | (k, a) :: as, (k', b) :: bs => by
    simp [sameFields, same_iff a b, sameFields_iff as bs]

end

instance : LawfulBEq Datum where
  eq_of_beq h := (same_iff _ _).1 h
  rfl := (same_iff _ _).2 rfl

instance : DecidableEq Datum := fun a b =>
  if h : same a b = true then isTrue ((same_iff a b).1 h)
  else isFalse fun e => h ((same_iff a b).2 e)

def ofNat (n : Nat) : Datum := .number n 0

def decimal (n : Int) : Datum := .text (Numeral.write n)

end Datum

end NominalBrand
