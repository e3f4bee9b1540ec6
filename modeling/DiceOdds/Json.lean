import DiceOdds.Text

/-!
# JSON values

The values that a message can hold.  Integers are unbounded and kept apart from decimals, which
hold a mantissa and a power of ten.  `NaN` and the two infinities count as values.
-/

namespace DiceOdds

inductive Json
  | null
  | bool (value : Bool)
  | integer (value : Int)
  | decimal (mantissa exponent : Int)
  | nan
  | infinity (negative : Bool)
  | string (value : Text)
  | array (elements : List Json)
  | object (members : List (Text × Json))

namespace Json

/-- The member under a key.  Where a key is repeated its last value counts. -/
def member? (key : Text) : Json → Option Json
  | object members => (members.reverse.find? fun member => member.1 == key).map Prod.snd
  | _ => none

end Json

end DiceOdds
