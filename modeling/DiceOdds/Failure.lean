import DiceOdds.Binary64
import DiceOdds.Distribution
import DiceOdds.Expr.Assembly
import DiceOdds.Plotter

/-!
# Failures

A failure is anything that keeps an answer from being computed or delivered and that is not a fault
in the text of an expression.
-/

namespace DiceOdds

inductive Failure
  /-- the tokens of an expression do not make a tree -/
  | assembly (obstacle : Assembly.Obstacle)
  /-- an expression has no distribution -/
  | odds (obstacle : Distribution.Obstacle)
  /-- a chance or a mean is no number -/
  | division (error : Binary64.DivisionError)
  /-- an integer has too many digits to be written -/
  | tooManyDigits
  /-- the plotter failed -/
  | plotter (error : Plotter.Error)
  /-- the settings do not say how long a command may take -/
  | noTimeLimit
  /-- what the settings say on how long a command may take is no number -/
  | badTimeLimit
  /-- the source of draws has run dry -/
  | noDraws
  /-- a message could not be sent -/
  | notSent
  deriving DecidableEq

/-- What is written, if no integer in it has too many digits. -/
def Failure.ofWritten {α : Type} : Option α → Except Failure α
  | some written => .ok written
  | none => .error .tooManyDigits

end DiceOdds
