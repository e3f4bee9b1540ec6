import DiceOdds.Text

/-!
# Operators

Multiplication binds tighter than addition and subtraction, and all three associate to the left.
-/

namespace DiceOdds

inductive Operator
  | add
  | sub
  | mul
  deriving DecidableEq

namespace Operator

def priority : Operator → Nat
  | add => 1
  | sub => 1
  | mul => 2

def sign : Operator → Char
  | add => '+'
  | sub => '-'
  | mul => '*'

def apply : Operator → Int → Int → Int
  | add, left, right => left + right
  | sub, left, right => left - right
  | mul, left, right => left * right

/-- Nothing binds tighter than multiplication. -/
theorem priority_le_two (operator : Operator) : operator.priority ≤ 2 := by
  cases operator <;> decide

theorem priority_pos (operator : Operator) : 0 < operator.priority := by
  cases operator <;> decide

end Operator

end DiceOdds
