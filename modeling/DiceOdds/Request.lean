import DiceOdds.Expr.Odds
import DiceOdds.Expr.Parse
import DiceOdds.Expr.Roll
import DiceOdds.Failure
import DiceOdds.Json.Reader
import DiceOdds.Json.Writer

/-!
# Requests and responses

A request is an object that names a command and an expression.  The response repeats the command and
holds either the result or the fault in the expression.  A message that is no such object gets a
response that says so and nothing else.  A response with an integer that has too many digits cannot
be written, which is a failure.
-/

namespace DiceOdds

inductive Request.Command
  | calculate
  | analyze
  deriving DecidableEq

structure Request where
  command : Request.Command
  expression : Text
  deriving DecidableEq

namespace Request

def Command.name : Command → Text
  | calculate => .ofString "calculate_dice"
  | analyze => .ofString "analyze_dice"

def Command.ofName? (name : Text) : Option Command :=
  [calculate, analyze].find? fun command => command.name == name

def string? : Json → Option Text
  | .string text => some text
  | _ => none

/-- The request in a message.  Other members of the object do not matter. -/
def ofMessage? (message : Text) : Option Request := do
  let object ← Json.read? message
  let command ← Command.ofName? (← string? (← object.member? (.ofString "command")))
  let expression ← string? (← object.member? (.ofString "expression"))
  return { command, expression }

abbrev Fields := List (Text × Json)

def faultFields (fault : Fault) : Fields :=
  [(.ofString "error", .string (.ofString fault.cause.name)),
    (.ofString "index", .integer fault.index)] ++
  match fault.cause.character? with
  | some character => [(.ofString "token", .string [character])]
  | none => []

def oddsFields (odds : Distribution) : Fields :=
  [(.ofString "offset", .integer odds.start),
    (.ofString "weights", .array (odds.weights.map .integer)),
    (.ofString "max_weight", .integer odds.maxWeight),
    (.ofString "total_weight", .integer odds.totalWeight)]

/-- What the response to a request holds beside the command. -/
def fields (request : Request) : Draws (Except Failure Fields) :=
  match Expr.parse request.expression with
  | .error (.fault fault) => return .ok (faultFields fault)
  | .error (.obstacle obstacle) => return .error (.assembly obstacle)
  | .ok expr =>
    match request.command with
    | .calculate => return .ok [(.ofString "result", .integer (← expr.roll))]
    | .analyze =>
        match expr.odds with
        | .ok odds => return .ok (oddsFields odds)
        | .error obstacle => return .error (.odds obstacle)

def response (command : Text) (fields : Fields) : Except Failure Text :=
  Failure.ofWritten (Json.write? (.object ((.ofString "command", .string command) :: fields)))

/-- The response to a message, in JSON. -/
def respond (message : Text) : Draws (Except Failure Text) :=
  match ofMessage? message with
  | none => return response (.ofString "message_parse_error") []
  | some request => return (← request.fields).bind (response request.command.name)

end Request

end DiceOdds
