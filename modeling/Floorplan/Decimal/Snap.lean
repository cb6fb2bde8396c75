import Floorplan.Binary
import Floorplan.Decimal

/-!
# Floorplan.Decimal.Snap

Passage between decimals and double binary values: `snap` takes the nearest hundredth, held within
the limit, and `toBinary` the nearest double.
-/

namespace Floorplan
namespace Decimal

def clamp (n : Int) : Decimal :=
  ⟨max (-limit.hundredths) (min n limit.hundredths)⟩

/-- The nearest hundredth of a double value, a half away from zero. What is no number is zero. -/
def snap (x : Binary) : Decimal :=
  match x.times .double 100 with
  | .finite negative m e => clamp (Binary.nearestInt negative m e)
  | .infinite negative => clamp (if negative then -limit.hundredths else limit.hundredths)
  | .nan => 0

def toBinary (x : Decimal) : Binary :=
  (Binary.Format.double.ofRatio x.hundredths 1).dividedBy .double 100

end Decimal
end Floorplan
