-- The named types, tags, fields and aliases that requests can mention, with
-- their full paths and their layouts.
import NominalBrand.Layout
import NominalBrand.TypeTerm

namespace NominalBrand.TypeCatalogue

def localPath (name : String) : String := "driver::base::" ++ name

def ownedText : String := "alloc::string::String"

/-- The path of the tag that each scope has for itself. -/
def scopeTag : String := "branded::fresh::Unique<'_>"

/-- The brand that serves as a base of other brands. -/
def nestedMark : Mark := ⟨.named (localPath "Beta"), .named (localPath "Audit")⟩

def nested : TypeExpr := nestedMark.brandOf (.named "i64")

def declarations : List Declaration := [
  ⟨"Percent", .named "u8", localPath "PercentTag", none⟩,
  ⟨"Sku", .named ownedText, localPath "SkuTag", none⟩,
  ⟨"LegacyUserId", .named "u64", localPath "LegacyUserTag", some (.named (localPath "Audit"))⟩,
  ⟨"PostId", .named "u64", localPath "PostTag", none⟩,
  ⟨"UserId", .named "u64", localPath "UserTag", none⟩]

def baseTerm? : String → Option TypeTerm
  | "unit" => some (.named "()")
  | "u8" => some (.named "u8")
  | "u64" => some (.named "u64")
  | "i64" => some (.named "i64")
  | "u128" => some (.named "u128")
  | "bool" => some (.named "bool")
  | "char" => some (.named "char")
  | "string" => some (.named ownedText)
  | "nested" =>
    some (.brand (.named "i64") (.named (localPath "Beta")) (some (.named (localPath "Audit"))))
  | "UserId" => some (.declared "UserId")
  | _ => none

def labelTerm? : String → Option TypeTerm
  | "str" => some (.named "str")
  | "u64" => some (.named "u64")
  | "Unique" => some (.named scopeTag)
  | "" => none
  | name => some (.named (localPath name))

def aliasTerm? : String → Option TypeTerm
  | "Fresh<u64>" => some (.brand (.named "u64") (.named scopeTag) none)
  | name => some (.declared name)

def expand? (t : TypeTerm) : Option TypeExpr := t.expand declarations

def layout? : String → Option Layout
  | "()" => some .empty
  | "u8" => some ⟨1, 1, false⟩
  | "bool" => some ⟨1, 1, true⟩
  | "char" => some ⟨4, 4, true⟩
  | "u32" => some ⟨4, 4, false⟩
  | "u64" => some ⟨8, 8, false⟩
  | "i64" => some ⟨8, 8, false⟩
  | "u128" => some ⟨16, 16, false⟩
  | "&str" => some ⟨16, 8, true⟩
  | "alloc::string::String" => some ⟨24, 8, true⟩
  | "branded::brander::validated::Assertion<i64>" => some ⟨8, 8, false⟩
  | _ => none

def markOf (tag : String) : Mark := ⟨.named (localPath tag), .defaultField⟩

/-- The marks under which a session can brand; the plain one is called Alpha. -/
def sessionMark? : String → Option Mark
  | "" => some (markOf "Alpha")
  | "Alpha" => some (markOf "Alpha")
  | "str" => some ⟨.named "str", .defaultField⟩
  | "Alpha/Audit" => some ⟨.named (localPath "Alpha"), .named (localPath "Audit")⟩
  | "LegacyUserId" => some ⟨.named (localPath "LegacyUserTag"), .named (localPath "Audit")⟩
  | "Percent" => some (markOf "PercentTag")
  | name => some (markOf name)

end NominalBrand.TypeCatalogue
