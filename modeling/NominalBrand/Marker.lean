-- Values that carry a type and nothing else, and the branders as values.
-- Showing one gives its name: most names are plain words that no style can
-- change, and the others name their parts between brackets.
import NominalBrand.Text.Rendering
import NominalBrand.TypeCatalogue

namespace NominalBrand

inductive Marker where
  | identity
  /-- The marker of a type that may not be exchanged for a smaller or a larger one. -/
  | invariant
  /-- The marker of a lifetime that may not be exchanged either. -/
  | lifetime
  | validated (stored : Layout)
  | assertion (stored : TypeExpr)
  | optional (inner : Marker)
deriving DecidableEq

namespace Marker

/-- The layout of a marker: nothing but what it stores. -/
def layout? : Marker → Option Layout
  | .identity => some .empty
  | .invariant => some .empty
  | .lifetime => some .empty
  | .validated stored => some stored
  | .assertion stored => Layout.of? TypeCatalogue.layout? stored
  | .optional inner => inner.layout?.map fun l => ⟨l.optionSize, l.align, false⟩

def shown (s : Text.Style) : Marker → String
  | .identity => "Identity"
  | .invariant => "Invariant"
  | .lifetime => Text.Rendering.parts s "InvariantLifetime" ["PhantomData<fn(&()) -> &()>"]
  | .validated _ => "Validated \x7b .. \x7d"
  | .assertion stored =>
    Text.Rendering.parts s "Assertion" [Text.quoted Text.doubleQuote stored.name.toList]
  | .optional inner => Text.Rendering.parts s "Some" [inner.shown s]

def equal? : Marker → Option Bool
  | .identity => some true
  | .invariant => some true
  | .lifetime => some true
  | _ => none

def ordering? : Marker → Option Ordering
  | .lifetime => some .eq
  | _ => none

def hashBytes? : Marker → Option (List UInt8)
  | .lifetime => some []
  | _ => none

def functionLayout : Layout := ⟨8, 8, true⟩

def assertionType (path : String) : TypeExpr :=
  .named ("branded::brander::validated::Assertion<" ++ path ++ ">")

def find? : String → Option Marker
  | "identity" => some .identity
  | "identity_nested" => some .identity
  | "invariant" => some .invariant
  | "lifetime" => some .lifetime
  | "validated_fn" => some (.validated functionLayout)
  | "validated_u8" => some (.validated ⟨1, 1, false⟩)
  | "validated_string" => some (.validated ⟨24, 8, true⟩)
  | "validated_unit" => some (.validated .empty)
  | "validated_assertion" => some (.validated ⟨4, 4, false⟩)
  | "assertion_u8" => some (.assertion (.named "u8"))
  | "assertion_str" => some (.assertion (.named "&str"))
  | "assertion_unit" => some (.assertion (.named "()"))
  | "assertion_string" => some (.assertion (.named TypeCatalogue.ownedText))
  | "assertion_brand" => (TypeCatalogue.expand? (.declared "UserId")).map .assertion
  | "assertion_assertion" => some (.assertion (assertionType "i64"))
  | "invariant_in_option" => some (.optional .invariant)
  | "identity_in_option" => some (.optional .identity)
  | "validated_in_option" => some (.optional (.validated .empty))
  | _ => none

end Marker

end NominalBrand
