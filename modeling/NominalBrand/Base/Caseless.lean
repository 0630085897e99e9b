-- Text that is compared and hashed without regard to the case of its ASCII
-- letters, so that equal values may still look different.
import NominalBrand.Capabilities

namespace NominalBrand

structure Caseless where
  text : String
deriving DecidableEq

namespace Caseless

/-- The text with its ASCII letters in lower case, which is all that comparisons look at. -/
def key (v : Caseless) : String := v.text.map Char.toLower

def order (a b : Caseless) : Ordering := compare a.key b.key

def feed : HashFeed Caseless := .ofOne fun v => HashFeed.text.one v.key

/-- What caseless text offers. Its text ignores the style; its quoted form is a named part. -/
def capabilities : Capabilities Caseless where
  comparison := .ofOrder order
  ranking := some (.ofOrder order)
  feed := some feed
  copy := .silent
  debug := some fun s v => do
    return Text.Rendering.parts s "Caseless" [← Text.Rendering.quotedText s v.text]
  display := some fun _ v => .silent v.text
  view v := ⟨none, some v.text, .text v.text⟩

end Caseless

end NominalBrand
