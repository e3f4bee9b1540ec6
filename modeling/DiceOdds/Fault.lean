import DiceOdds.Text.Quoted

/-!
# Faults in an expression

A fault says what is wrong with the text of an expression and at which index.  The first fault ends
the reading, so a text has at most one.
-/

namespace DiceOdds

inductive Fault.Cause
  /-- a character that no expression uses -/
  | unexpectedToken (character : CodePoint)
  /-- a die without a positive number of faces -/
  | badDie
  /-- an operator without a value on one of its sides -/
  | illegalExpression
  /-- a bracket without its partner -/
  | unmatchedParen
  /-- a group, or a whole expression, without a value -/
  | emptyExpression
  deriving DecidableEq

structure Fault where
  cause : Fault.Cause
  index : Int
  deriving DecidableEq

namespace Fault

/-- The name under which a response reports the cause. -/
def Cause.name : Cause → String
  | unexpectedToken _ => "unexpected_token"
  | badDie => "bad_die"
  | illegalExpression => "illegal_expression"
  | unmatchedParen => "unmatched_paren"
  | emptyExpression => "empty_expression"

/-- The character that a response reports along with the cause. -/
def Cause.character? : Cause → Option CodePoint
  | unexpectedToken character => some character
  | _ => none

def message (fault : Fault) : Text :=
  let position := Text.ofInt fault.index
  match fault.cause with
  | .unexpectedToken character =>
      .ofString "unexpected character " ++ Text.quoted [character] ++ .ofString " at index " ++ position
  | .badDie => .ofString "die at index " ++ position ++ .ofString " needs a positive number of faces"
  | .illegalExpression => .ofString "illegal expression at index " ++ position
  | .unmatchedParen => .ofString "unmatched paren at index " ++ position
  | .emptyExpression => .ofString "empty expression at index " ++ position

end Fault

end DiceOdds
