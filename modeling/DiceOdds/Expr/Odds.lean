import DiceOdds.Distribution.Algebra
import DiceOdds.Expr

/-!
# The odds of an expression

The distribution of the results of an expression, built from the distributions of its parts.
-/

namespace DiceOdds.Expr

def odds : Expr → Except Distribution.Obstacle Distribution
  | .number value => .ok (.point value)
  | .die shape => Distribution.uniform shape.faces
  | .binary .mul count (.die shape) => do (← count.odds).pool (← Distribution.uniform shape.faces)
  | .binary .add left right => return (← left.odds) + (← right.odds)
  | .binary .sub left right => return (← left.odds) - (← right.odds)
  | .binary .mul left right => return (← left.odds) * (← right.odds)

end DiceOdds.Expr
