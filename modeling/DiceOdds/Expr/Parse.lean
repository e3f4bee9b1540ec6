import DiceOdds.Expr.Assembly
import DiceOdds.Token.Explicit
import DiceOdds.Token.Scan

/-!
# Parsing dice notation

A text is an expression if it scans into tokens, the tokens have an explicit form and the explicit
form assembles into a tree.
-/

namespace DiceOdds.Expr

inductive ParseError
  | fault (fault : Fault)
  | obstacle (obstacle : Assembly.Obstacle)
  deriving DecidableEq

def ofTokens (tokens : List Token) : Except ParseError Expr := do
  let tokens ← (Token.explicit tokens).mapError .fault
  (assemble tokens).mapError .obstacle

def parse (text : Text) : Except ParseError Expr := do
  let tokens ← (Token.scan text).mapError .fault
  ofTokens tokens

end DiceOdds.Expr
