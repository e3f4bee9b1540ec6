import DiceOdds.Fault
import DiceOdds.Token.Brackets

/-!
# Explicit streams

In an explicit stream an operator stands between every two neighbouring values.  `Token.explicit`
makes a stream explicit: it writes out the multiplication between two values that stand side by
side, and the zero before a sign that opens a group.  It refuses brackets that do not match, and
neighbours between which no value can stand.

The stream counts as a group of its own, opened at index 0.
-/

namespace DiceOdds.Token

/-- The end of a group directly after `left`, where nothing is to be written out. -/
def ending (left : Token) : Except Fault (List Token) :=
  match left.kind with
  | .opening => .error ⟨.emptyExpression, left.index⟩
  | .operator _ => .error ⟨.illegalExpression, left.index⟩
  | _ => .ok []

/-- The tokens to write out between two neighbours. -/
def between (left right : Token) : Except Fault (List Token) :=
  if left.kind.endsValue then
    if right.kind.startsValue then .ok [⟨right.index, .operator .mul⟩] else .ok []
  else
    match right.kind with
    | .closing => ending left
    | .operator operator =>
        if left.kind = .opening ∧ operator ≠ .mul then .ok [⟨right.index, .number 0⟩]
        else .error ⟨.illegalExpression, right.index⟩
    | _ => .ok []

/-- The explicit form of the tokens that follow `left`. -/
def explicitAfter (left : Token) : List Token → Except Fault (List Token)
  | [] => ending left
  | right :: rest => do return (← between left right) ++ right :: (← explicitAfter right rest)

def explicit (tokens : List Token) : Except Fault (List Token) :=
  match unmatched? tokens with
  | some index => .error ⟨.unmatchedParen, index⟩
  | none => explicitAfter ⟨0, .opening⟩ tokens

end DiceOdds.Token
