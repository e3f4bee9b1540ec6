import DiceOdds.Distribution.Chances
import DiceOdds.Failure

/-!
# The summary of a distribution

Five lines that tell what the distribution belongs to, its range, its most likely outcome, its mean
and its total weight.  Rounded numbers have two places, which a percentage leaves out when both are
zero.
-/

namespace DiceOdds

/-- A hundred times the chance, which is rounded once more as a number and then to two places. -/
def percentage (chance : Binary64) : Text :=
  let shown := (chance.times 100).fixed 2
  let shown :=
    if (Text.ofString ".00").isSuffixOf shown then shown.take (shown.length - 3) else shown
  shown ++ .ofString "%"

/-- The summary under a label.  It fails if a quotient is no number and then if an integer has too
many digits to be written. -/
def summary (label : Text) (distribution : Distribution) : Except Failure Text := do
  let mean ← distribution.mean.mapError .division
  let chance ← distribution.chanceOfMode.mapError .division
  let minimum ← Failure.ofWritten (Text.ofInt? distribution.minimum)
  let maximum ← Failure.ofWritten (Text.ofInt? distribution.maximum)
  let mode ← Failure.ofWritten (Text.ofInt? distribution.mode)
  let totalWeight ← Failure.ofWritten (Text.ofInt? distribution.totalWeight)
  return .ofString "**Input:** " ++ label ++
    .ofString "\n**Range:** " ++ minimum ++ .ofString " to " ++ maximum ++
    .ofString "\n**Most likely:** " ++ mode ++ .ofString " (" ++ percentage chance ++
    .ofString ")\n**Mean:** " ++ mean.fixed 2 ++
    .ofString "\n**Total weight:** " ++ totalWeight

end DiceOdds
