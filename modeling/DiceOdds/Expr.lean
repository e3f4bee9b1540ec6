import DiceOdds.Operator

/-!
# Dice expressions

An expression is a tree of numbers, dice and operators.  Brackets leave no node.  A die directly on
the right of a multiplication makes the product a pool: the left side says how many dice to roll,
and their sum is the result.
-/

namespace DiceOdds

/-- A die has its faces.  How often it is rolled and how many of the lowest and highest rolls are
dropped is carried along; it counts for equality and for nothing else. -/
structure Die where
  faces : Int
  rolls : Int := 1
  dropLowest : Int := 0
  dropHighest : Int := 0
  deriving DecidableEq

inductive Expr
  | number (value : Int)
  | die (shape : Die)
  | binary (operator : Operator) (left right : Expr)
  deriving DecidableEq

namespace Expr

/-- Leaves bind tightest. -/
def priority : Expr → Nat
  | binary operator _ _ => operator.priority
  | _ => 3

end Expr

end DiceOdds
