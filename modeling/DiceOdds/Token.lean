import DiceOdds.Operator

/-!
# Tokens

A token is a number, a die, an operator or a bracket, together with the index in the text at which
it starts.  The shape of a bracket is not kept: any closing bracket closes any opening one.
-/

namespace DiceOdds

inductive Token.Kind
  | number (value : Int)
  | die (faces : Int)
  | operator (operator : Operator)
  | opening
  | closing
  deriving DecidableEq

structure Token where
  index : Int
  kind : Token.Kind
  deriving DecidableEq

namespace Token

/-- A value may end with this kind of token. -/
def Kind.endsValue : Kind → Bool
  | number _ | die _ | closing => true
  | operator _ | opening => false

/-- A value may start with this kind of token. -/
def Kind.startsValue : Kind → Bool
  | number _ | die _ | opening => true
  | operator _ | closing => false

def Kind.operator? : Kind → Option Operator
  | .operator sign => some sign
  | _ => none

end Token

end DiceOdds
