import DiceOdds.Chart
import DiceOdds.Chat.Limit
import DiceOdds.Expr.Odds
import DiceOdds.Expr.Parse
import DiceOdds.Expr.Render
import DiceOdds.Expr.Roll
import DiceOdds.Summary

/-!
# Chat commands

A chat command rolls an expression or shows its odds.  Each command ends in one message on the
channel: the result, a notice that time is up, the fault in the expression, or a notice of an
internal error.  An internal error is also raised to the caller.
-/

namespace DiceOdds.Chat

inductive Command
  | roll
  | analyze
  deriving DecidableEq

def Command.name : Command → Text
  | roll => .ofString "roll"
  | analyze => .ofString "analyze"

/-- The command that a line gives and the text after it, if the line starts with `mark` and the name
of a command. -/
def Command.ofLine? (mark line : Text) : Option (Command × Text) := do
  let named ← Text.after? mark line
  [roll, analyze].findSome? fun command => do
    let rest ← Text.after? command.name named
    if rest.head?.all (· == .scalar ' ') then some (command, rest) else none

/-- A picture under a file name. -/
structure Attachment where
  fileName : Text
  picture : Picture

structure Message where
  text : Text
  attachment : Option Attachment := none

/-- Why a command has no result. -/
inductive Halt
  | timedOut
  | faulty (fault : Fault)
  | failed (failure : Failure)

/-- A failure halts a command.  A plotter that gives up waiting counts as time that is up. -/
def Halt.ofFailure : Failure → Halt
  | .plotter .timeout => timedOut
  | failure => failed failure

/-- How the work on a command ends, before its result is sent. -/
abbrev Outcome := Except Halt Message

/-- The result of a roll. -/
def rollMessage (expr : Expr) (result : Int) : Except Failure Message := do
  let label ← Failure.ofWritten expr.render?
  let shown ← Failure.ofWritten (Text.ofInt? result)
  return { text := .ofString "**Input:** " ++ label ++ .ofString "\n**Result:** " ++ shown }

/-- A step for which a command waits. -/
def await {α : Type} (limit : Limit) (wait : Wait) (step : Except Failure α) : Except Halt α :=
  if limit.CutsOff wait then .error .timedOut else step.mapError .ofFailure

variable {Frame : Type}

/-- The odds of an expression, with their chart. -/
def analysis (plotter : Plotter Frame) (limit : Limit) (expr : Expr) : Outcome := do
  let odds ← await limit .evaluation (expr.odds.mapError .odds)
  let label ← (Failure.ofWritten expr.render?).mapError .ofFailure
  let picture ← await limit .picture (plotter.plot label odds)
  let text ← (summary label odds).mapError .ofFailure
  return { text, attachment := some { fileName := .ofString "image.png", picture } }

/-- The text that the words of a command make up. -/
def expressionText (words : List Text) : Text :=
  [CodePoint.scalar ' '].intercalate words

/-- The work on a command.  A limit that leaves no time, or is no time, ends it before anything else
happens.  What a roll still draws once it has been cut off concerns nobody. -/
def work (plotter : Plotter Frame) (command : Command) (words : List Text) (limit : Limit) :
    Draws Outcome :=
  match limit with
  | .spent => return .error .timedOut
  | .missing => return .error (.failed .noTimeLimit)
  | .invalid => return .error (.failed .badTimeLimit)
  | .lasting _ =>
    match Expr.parse (expressionText words) with
    | .error (.fault fault) => return .error (.faulty fault)
    | .error (.obstacle obstacle) => return .error (.failed (.assembly obstacle))
    | .ok expr =>
      match command with
      | .analyze => return analysis plotter limit expr
      | .roll =>
        if limit.CutsOff .evaluation then return .error .timedOut
        else return (rollMessage expr (← expr.roll)).mapError .ofFailure

/-- The outcome of work that may have found its source of draws dry. -/
def outcome {σ : Type} (play : Play σ Outcome) : Outcome :=
  play.result.getD (.error (.failed .noDraws))

/-- A channel that fails to send so many messages and delivers all later ones. -/
structure Channel where
  failing : Nat
  delivered : List Message := []

/-- Whether the message could be sent, and the channel after the attempt. -/
def Channel.send (channel : Channel) (message : Message) : Bool × Channel :=
  match channel.failing with
  | 0 => (true, { channel with delivered := channel.delivered ++ [message] })
  | failing + 1 => (false, { channel with failing })

/-- The channel after a send that was cut off.  A message is delivered when its send is over, so
this one is not. -/
def Channel.cutOff (channel : Channel) : Channel :=
  { channel with failing := channel.failing - 1 }

def timeNotice : Message where
  text := .ofString "Your roll took too long to evaluate. Sorry!"

def faultNotice (fault : Fault) : Message where
  text := .ofString "Error in input: " ++ fault.message

def internalNotice : Message where
  text := .ofString "An internal error occured. Sorry!"

/-- What is raised to the caller, if anything, and the channel afterwards. -/
abbrev Report := Option Failure × Channel

/-- Sends a notice whose loss is a failure of its own. -/
def notify (channel : Channel) (notice : Message) : Report :=
  match channel.send notice with
  | (true, channel) => (none, channel)
  | (false, channel) => (some .notSent, channel)

/-- Sends the notice of an internal error, whose loss is passed over, and raises the failure. -/
def raise (channel : Channel) (failure : Failure) : Report :=
  (some failure, (channel.send internalNotice).2)

/-- Sends what an outcome calls for.  Only the result is sent under the limit. -/
def report (limit : Limit) (channel : Channel) : Outcome → Report
  | .error .timedOut => notify channel timeNotice
  | .error (.faulty fault) => notify channel (faultNotice fault)
  | .error (.failed failure) => raise channel failure
  | .ok message =>
    if limit.CutsOff .delivery then notify channel.cutOff timeNotice
    else
      match channel.send message with
      | (true, channel) => (none, channel)
      | (false, channel) => raise channel .notSent

end DiceOdds.Chat
