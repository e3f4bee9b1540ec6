import DiceOdds.Expr
import DiceOdds.Token

/-!
# Assembling a tree from tokens

Operators are weighed against each other while the tokens are read once from left to right.  An
operator joins the value before it if it binds tighter than the current floor.  What it takes on its
right is settled by a look ahead: if the operator after the next value binds tighter, the right side
is everything up to the next operator that does not, and otherwise it is that value alone.

The stream is meant to be explicit, but any list of tokens has an outcome.  The token after a group
is passed over whatever it is, and a group may end with the stream; the outcome then is that the
tokens do not add up to one expression.
-/

namespace DiceOdds

/-- Why a list of tokens is not one expression. -/
inductive Assembly.Obstacle
  /-- the tokens end where a value must be -/
  | ranOut
  /-- an operator or a closing bracket stands where a value must be -/
  | notAValue (token : Token)
  /-- the expression ends before the tokens or its last group does not -/
  | trailing
  deriving DecidableEq

namespace Assembly

/-- The operator of the first token outside of any group, up to the end of the current one. -/
def nextOperatorAt? (depth : Nat) : List Token → Option Operator
  | [] => none
  | token :: rest =>
    match token.kind, depth with
    | .opening, depth => nextOperatorAt? (depth + 1) rest
    | .closing, 0 => none
    | .closing, depth + 1 => nextOperatorAt? depth rest
    | .operator operator, 0 => some operator
    | _, depth => nextOperatorAt? depth rest

/-- The operator after the value that the tokens start with. -/
def operatorAfterValue? (tokens : List Token) : Option Operator :=
  nextOperatorAt? 0 tokens

/-- What is waiting for the value that is being read. -/
inductive Pending
  /-- an open group, inside an expression with this floor -/
  | group (floor : Nat)
  /-- an operator and its left side, inside an expression with this floor -/
  | operand (floor : Nat) (left : Expr) (operator : Operator)
  deriving DecidableEq

/-- What a value turns out to be when the operator after it, if any, is known. -/
inductive Settled
  /-- the left side of that operator -/
  | leftSide (floor : Nat) (value : Expr) (operator : Operator) (pending : List Pending)
  /-- a whole group -/
  | group (floor : Nat) (value : Expr) (pending : List Pending)
  /-- the whole expression -/
  | whole (value : Expr)

/-- Operators whose right side is complete take it, up to the first group. -/
def settle (next : Option Operator) (floor : Nat) (value : Expr) : List Pending → Settled
  | [] =>
      match next.filter (floor < ·.priority) with
      | some operator => .leftSide floor value operator []
      | none => .whole value
  | pending@(top :: outer) =>
      match next.filter (floor < ·.priority), top with
      | some operator, _ => .leftSide floor value operator pending
      | none, .operand floor left operator => settle next floor (.binary operator left value) outer
      | none, .group floor => .group floor value outer

/-- The floor of the right side of an operator.  Nothing binds tighter than 2, which leaves a single
value. -/
def rightFloor (operator : Operator) (rest : List Token) : Nat :=
  match operatorAfterValue? rest with
  | some following => if operator.priority < following.priority then operator.priority else 2
  | none => 2

mutual

/-- The expression when a value comes next. -/
def operand (floor : Nat) (pending : List Pending) : List Token → Except Obstacle Expr
  | [] => .error .ranOut
  | token :: rest =>
    match token.kind with
    | .number value => continuation floor (.number value) pending rest
    | .die faces => continuation floor (.die { faces }) pending rest
    | .opening => operand 0 (.group floor :: pending) rest
    | _ => .error (.notAValue token)

/-- The expression when a value has been read. -/
def continuation (floor : Nat) (value : Expr) (pending : List Pending) :
    List Token → Except Obstacle Expr
  | [] =>
    match settle none floor value pending with
    | .whole value => .ok value
    | _ => .error .trailing
  | token :: rest =>
    match settle token.kind.operator? floor value pending with
    | .leftSide floor left operator pending =>
        operand (rightFloor operator rest) (.operand floor left operator :: pending) rest
    | .group floor value pending => continuation floor value pending rest
    | .whole _ => .error .trailing

end

end Assembly

def Expr.assemble (tokens : List Token) : Except Assembly.Obstacle Expr :=
  Assembly.operand 0 [] tokens

end DiceOdds
