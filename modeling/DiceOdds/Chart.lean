import DiceOdds.Distribution.Chances
import DiceOdds.Failure

/-!
# The chart of a distribution

A bar chart with a bar for every outcome, as high as its chance.
-/

namespace DiceOdds

variable {Frame : Type}

/-- The outcomes and their chances as a frame. -/
def Distribution.frame (plotter : Plotter Frame) (distribution : Distribution) :
    Except Failure Frame := do
  let chances ← distribution.chances.mapError .division
  (plotter.frame [.ofString "value", .ofString "probability"] chances).mapError .plotter

/-- The picture of the chart under a label. -/
def Plotter.plot (plotter : Plotter Frame) (label : Text) (distribution : Distribution) :
    Except Failure Picture := do
  let data ← distribution.frame plotter
  (plotter.picture { data, title := label }).mapError .plotter

end DiceOdds
