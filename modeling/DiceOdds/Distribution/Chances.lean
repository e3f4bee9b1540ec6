import DiceOdds.Binary64
import DiceOdds.Distribution

/-!
# Chances

The chance of an outcome is its weight divided by the total weight.  The mode and the mean are taken
from the exact weights, and only the last division is rounded.
-/

namespace DiceOdds.Distribution

def chances (distribution : Distribution) :
    Except Binary64.DivisionError (List (Int × Binary64)) :=
  distribution.outcomes.mapM fun (value, weight) =>
    return (value, ← Binary64.divide weight distribution.totalWeight)

/-- The first outcome of the greatest weight. -/
def mode (distribution : Distribution) : Int :=
  distribution.start + distribution.weights.idxOf distribution.maxWeight

def chanceOfMode (distribution : Distribution) : Except Binary64.DivisionError Binary64 :=
  Binary64.divide distribution.maxWeight distribution.totalWeight

/-- The sum of the outcomes, each times its weight. -/
def weightedSum (distribution : Distribution) : Int :=
  distribution.outcomes.foldr (fun (value, weight) sum => value * weight + sum) 0

def mean (distribution : Distribution) : Except Binary64.DivisionError Binary64 :=
  Binary64.divide distribution.weightedSum distribution.totalWeight

end DiceOdds.Distribution
