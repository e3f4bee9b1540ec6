import DiceOdds.Fault
import DiceOdds.Token

/-!
# Scanning text into tokens

The text is read once from left to right.  A run of digits, or a `d` and the digits after it, is
held open until the first character that cannot extend it, so every number and every die takes the
longest run that it can.  Spaces, tabs and line feeds separate runs and leave no token.
-/

namespace DiceOdds

/-- What a code point means in an expression. -/
inductive Symbol
  | digit (value : Nat)
  | dieMark
  | blank
  /-- a character that is a token of its own -/
  | mark (kind : Token.Kind)
  | foreign
  deriving DecidableEq

def Symbol.ofChar (character : Char) : Symbol :=
  match (CodePoint.scalar character).digit? with
  | some value => .digit value
  | none =>
    match character with
    | 'd' => .dieMark
    | ' ' | '\t' | '\n' => .blank
    | '+' => .mark (.operator .add)
    | '-' => .mark (.operator .sub)
    | '*' => .mark (.operator .mul)
    | '(' | '[' | '\x7b' => .mark .opening
    | ')' | ']' | '\x7d' => .mark .closing
    | _ => .foreign

def CodePoint.symbol : CodePoint → Symbol
  | scalar character => .ofChar character
  | surrogate _ => .foreign

namespace Token

/-- The number or die whose digits are being read, with the value of the digits so far. -/
inductive Run
  | idle
  | number (start : Int) (value : Nat)
  | die (start : Int) (faces : Nat)
  deriving DecidableEq

namespace Run

def push (index : Int) (digit : Nat) : Run → Run
  | idle => number index digit
  | number start value => number start (value * 10 + digit)
  | die start faces => die start (faces * 10 + digit)

/-- The token of a run that no digit extends any more.  A die needs at least one face. -/
def finish : Run → Except Fault (List Token)
  | idle => .ok []
  | number start value => .ok [⟨start, .number value⟩]
  | die start 0 => .error ⟨.badDie, start⟩
  | die start faces => .ok [⟨start, .die faces⟩]

end Run

/-- The tokens of an open run and of the text after it, which starts at `index`. -/
def scanFrom (index : Int) (run : Run) : Text → Except Fault (List Token)
  | [] => run.finish
  | point :: rest =>
    match point.symbol with
    | .digit value => scanFrom (index + 1) (run.push index value) rest
    | .dieMark => do return (← run.finish) ++ (← scanFrom (index + 1) (.die index 0) rest)
    | .blank => do return (← run.finish) ++ (← scanFrom (index + 1) .idle rest)
    | .mark kind => do return (← run.finish) ++ ⟨index, kind⟩ :: (← scanFrom (index + 1) .idle rest)
    | .foreign => do
        let _ ← run.finish
        .error ⟨.unexpectedToken point, index⟩

def scan (text : Text) : Except Fault (List Token) :=
  scanFrom 0 .idle text

end Token

end DiceOdds
