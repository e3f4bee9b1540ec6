import DiceOdds.Draws
import DiceOdds.Expr

/-!
# Rolling an expression

Left sides are rolled before right sides.  A pool rolls its count and then so many dice; a count
below zero rolls none.
-/

namespace DiceOdds.Expr

/-- `sum` and so many rolls of a die. -/
def rollDice (faces sum : Int) : Nat → Draws Int
  | 0 => .done sum
  | more + 1 => .ask faces fun value => rollDice faces (sum + value) more

def roll : Expr → Draws Int
  | .number value => .done value
  | .die shape => .ask shape.faces .done
  | .binary .mul count (.die shape) => do rollDice shape.faces 0 (← count.roll).toNat
  | .binary operator left right => return operator.apply (← left.roll) (← right.roll)

end DiceOdds.Expr
