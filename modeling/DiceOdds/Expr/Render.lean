import DiceOdds.Expr

/-!
# Dice notation of an expression

Brackets are written where the tree would otherwise be read back differently: on the left around
an operator that binds looser, on the right also around one that binds as tight.  A pool with a
plain number of dice is written in the short form, as in `2d6`.  A tree is written down as a whole
or not at all: an integer with too many digits leaves it without a notation.
-/

namespace DiceOdds.Expr

def bracketedIf (condition : Prop) [Decidable condition] (inner : Text) : Text :=
  if condition then .scalar '(' :: inner ++ [.scalar ')'] else inner

def render : Expr → Text
  | .number value => Text.ofInt value
  | .die shape => .scalar 'd' :: Text.ofInt shape.faces
  | .binary .mul (.number count) (.die shape) =>
      Text.ofInt count ++ .scalar 'd' :: Text.ofInt shape.faces
  | .binary operator left right =>
      bracketedIf (left.priority < operator.priority) left.render ++
        [.scalar ' ', .scalar operator.sign, .scalar ' '] ++
        bracketedIf (right.priority ≤ operator.priority) right.render

/-- The integers in the notation. -/
def numerals : Expr → List Int
  | .number value => [value]
  | .die shape => [shape.faces]
  | .binary _ left right => left.numerals ++ right.numerals

/-- No integer in the notation has too many digits. -/
def Fits (expr : Expr) : Prop :=
  ∀ value ∈ expr.numerals, Text.Fits value

instance (expr : Expr) : Decidable expr.Fits :=
  inferInstanceAs (Decidable (∀ value ∈ expr.numerals, Text.Fits value))

/-- The notation of a tree, unless it holds an integer that cannot be written. -/
def render? (expr : Expr) : Option Text :=
  if expr.Fits then some expr.render else none

theorem render?_of_fits {expr : Expr} (hfits : expr.Fits) : expr.render? = some expr.render :=
  if_pos hfits

theorem render?_eq_some_iff {expr : Expr} {text : Text} :
    expr.render? = some text ↔ expr.Fits ∧ text = expr.render := by
  rw [render?, Option.ite_none_right_eq_some, Option.some.injEq, eq_comm (a := text)]

theorem render?_eq_none_iff {expr : Expr} : expr.render? = none ↔ ¬ expr.Fits := by
  simp [render?]

end DiceOdds.Expr
