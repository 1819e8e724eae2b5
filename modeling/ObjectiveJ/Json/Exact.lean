import ObjectiveJ.Decimal.Form
import ObjectiveJ.Json.Basic

/-!
# Exact values

Readers of JSON do not agree on the digits of a double. Where its digits matter, a double is shown
as an object that holds them as a text.
-/

namespace ObjectiveJ.Json

def exactFloat (x : Float) : Json := .obj [("float", .str (Decimal.write Decimal.plain x))]

/-- A value, by its digits if it is a double. The values inside of it are left alone. -/
def exact : Json → Json
  | .float x => exactFloat x
  | j => j

end ObjectiveJ.Json
