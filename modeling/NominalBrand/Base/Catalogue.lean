-- The base types that requests can name.
import NominalBrand.Base.Caseless
import NominalBrand.Base.Double
import NominalBrand.Base.Probe
import NominalBrand.TypeCatalogue

namespace NominalBrand.Base

abbrev signed64 : Width := ⟨true, 64⟩

def unit : Base where
  Carrier := Unit
  type := .named "()"
  read? := fun
    | .null => some ()
    | _ => none
  offers := {
    comparison := .ofOrder fun _ _ => .eq
    ranking := some (.ofOrder fun _ _ => .eq)
    feed := some (.ofOne fun _ => .silent [])
    copy := .silent
    debug := some Text.Rendering.unit
    display := none
    view := fun _ => ⟨none, none, .null⟩ }

def bool : Base where
  Carrier := Bool
  type := .named "bool"
  read? := fun
    | .truth b => some b
    | _ => none
  offers := {
    comparison := .ofOrder compare
    ranking := some (.ofOrder compare)
    feed := some HashFeed.bool
    copy := .silent
    debug := some Text.Rendering.bool
    display := some Text.Rendering.bool
    view := fun b => ⟨none, none, .truth b⟩ }

def char : Base where
  Carrier := Char
  type := .named "char"
  read? := fun
    | .text s => match s.toList with
      | [c] => some c
      | _ => none
    | _ => none
  offers := {
    comparison := .ofOrder compare
    ranking := some (.ofOrder compare)
    feed := some HashFeed.char
    copy := .silent
    debug := some Text.Rendering.quotedChar
    display := some Text.Rendering.char
    view := fun c => ⟨none, none, .text (String.singleton c)⟩ }

def whole (name : String) (w : Width) : Base where
  Carrier := Whole w
  type := .named name
  read? := Whole.read? w
  offers := Whole.capabilities w

/-- What text offers; it is ordered by its UTF-8 bytes, which is the order of its code points. -/
def textCapabilities : Capabilities String where
  comparison := .ofOrder compare
  ranking := some (.ofOrder compare)
  feed := some HashFeed.text
  copy := .silent
  debug := some Text.Rendering.quotedText
  display := some Text.Rendering.text
  view s := ⟨none, some s, .text s⟩

def text : Base where
  Carrier := String
  type := .named TypeCatalogue.ownedText
  read? := fun
    | .text s => some s
    | _ => none
  offers := textCapabilities

def list : Base where
  Carrier := List (Whole signed64)
  type := .named "alloc::vec::Vec<i64>"
  read? := fun
    | .list items => items.mapM (Whole.read? signed64)
    | _ => none
  offers :=
    let item := Whole.capabilities signed64
    { comparison := item.comparison.list
      ranking := item.ranking.map Ranking.list
      feed := item.feed.map HashFeed.list
      copy := .silent
      debug := item.debug.map Text.Rendering.list
      display := none
      view := fun vs => ⟨none, none, .list (vs.map item.form)⟩ }

def option : Base where
  Carrier := Option (Whole signed64)
  type := .named "core::option::Option<i64>"
  read? := fun
    | .null => some none
    | d => (Whole.read? signed64 d).map some
  offers :=
    let item := Whole.capabilities signed64
    { comparison := item.comparison.option
      ranking := item.ranking.map Ranking.option
      feed := item.feed.map HashFeed.option
      copy := .silent
      debug := item.debug.map Text.Rendering.option
      display := none
      view := fun v => ⟨none, none, (v.map item.form).getD .null⟩ }

def pair : Base where
  Carrier := Whole signed64 × String
  type := .named "(i64, alloc::string::String)"
  read? := fun
    | .list [first, .text second] => (Whole.read? signed64 first).map (·, second)
    | _ => none
  offers :=
    let first := Whole.capabilities signed64
    let second := textCapabilities
    { comparison := first.comparison.pair second.comparison
      ranking := do return (← first.ranking).pair (← second.ranking)
      feed := do return HashFeed.pair (← first.feed) (← second.feed)
      copy := .silent
      debug := do return Text.Rendering.pair (← first.debug) (← second.debug)
      display := none
      view := fun v => ⟨none, none, .list [first.form v.1, second.form v.2]⟩ }

/-- A brand used as a base of other brands. -/
def nested : Base where
  Carrier := Brand TypeCatalogue.nestedMark (Whole signed64)
  type := TypeCatalogue.nested
  read? d := (Whole.read? signed64 d).map Brand.mk
  offers := (Whole.capabilities signed64).brand TypeCatalogue.nestedMark

def double : Base where
  Carrier := Double
  type := .named "f64"
  read? := Double.read?
  offers := Double.capabilities
  lawful := false

def caseless : Base where
  Carrier := Caseless
  type := .named (TypeCatalogue.localPath "Caseless")
  read? := fun
    | .text s => some ⟨s⟩
    | _ => none
  offers := Caseless.capabilities

def probe : Base where
  Carrier := Probe
  type := .named (TypeCatalogue.localPath "Probe")
  read? := Probe.read?
  offers := Probe.capabilities
  lawful := false

def find? : String → Option Base
  | "unit" => some unit
  | "bool" => some bool
  | "char" => some char
  | "u8" => some (whole "u8" ⟨false, 8⟩)
  | "i8" => some (whole "i8" ⟨true, 8⟩)
  | "u16" => some (whole "u16" ⟨false, 16⟩)
  | "u32" => some (whole "u32" ⟨false, 32⟩)
  | "u64" => some (whole "u64" ⟨false, 64⟩)
  | "i64" => some (whole "i64" ⟨true, 64⟩)
  | "u128" => some (whole "u128" ⟨false, 128⟩)
  | "i128" => some (whole "i128" ⟨true, 128⟩)
  | "string" => some text
  | "list" => some list
  | "option" => some option
  | "pair" => some pair
  | "nested" => some nested
  | "f64" => some double
  | "caseless" => some caseless
  | "probe" => some probe
  | _ => none

end NominalBrand.Base
