-- Clamping a value between two bounds. The value itself is kept as long as
-- it is neither below the lower bound nor above the upper one, and bounds
-- that are out of order make the request panic.
import NominalBrand.Comparison

namespace NominalBrand

/-- The value, or the bound that it passes; none when the lower bound is not at most the upper. -/
def Comparison.clamp {β : Type} (c : Comparison β) (v lo hi : β) : Logged (Option β) := do
  if ← c.le lo hi then
    if ← c.lt v lo then return some lo
    else if ← c.gt v hi then return some hi
    else return some v
  else return none

end NominalBrand
