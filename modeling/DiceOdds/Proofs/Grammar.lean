import DiceOdds.Expr
import DiceOdds.Token

/-!
# The grammar of dice notation

A sum is made of terms, a term of factors, and a factor is a number, a die or a sum in brackets.
Short notation leaves out the multiplication between neighbours and the zero before a sign that
opens a group; explicit notation writes out both.  The grammar is left recursive, as all operators
associate to the left, and it says which tree a stream of tokens denotes.
-/

namespace DiceOdds.Grammar

inductive Style
  | short
  | explicit

inductive Part
  | sum
  | term
  | factor

/-- `Derives style part tokens expr` says that the tokens are such a part and denote the tree. -/
inductive Derives (style : Style) : Part → List Token → Expr → Prop
  | number (index value : Int) : Derives style .factor [⟨index, .number value⟩] (.number value)
  | die (index faces : Int) : Derives style .factor [⟨index, .die faces⟩] (.die { faces })
  | group {tokens : List Token} {expr : Expr} (start stop : Int) :
      Derives style .sum tokens expr →
      Derives style .factor (⟨start, .opening⟩ :: tokens ++ [⟨stop, .closing⟩]) expr
  | factor {tokens : List Token} {expr : Expr} :
      Derives style .factor tokens expr → Derives style .term tokens expr
  | times {left right : List Token} {leftExpr rightExpr : Expr} (index : Int) :
      Derives style .term left leftExpr → Derives style .factor right rightExpr →
      Derives style .term (left ++ ⟨index, .operator .mul⟩ :: right)
        (.binary .mul leftExpr rightExpr)
  | beside {left right : List Token} {leftExpr rightExpr : Expr} (hshort : style = .short) :
      Derives style .term left leftExpr → Derives style .factor right rightExpr →
      Derives style .term (left ++ right) (.binary .mul leftExpr rightExpr)
  | term {tokens : List Token} {expr : Expr} :
      Derives style .term tokens expr → Derives style .sum tokens expr
  | signed {tokens : List Token} {expr : Expr} {sign : Operator} (hshort : style = .short)
      (hsign : sign ≠ .mul) (index : Int) :
      Derives style .term tokens expr →
      Derives style .sum (⟨index, .operator sign⟩ :: tokens) (.binary sign (.number 0) expr)
  | operation {left right : List Token} {leftExpr rightExpr : Expr} {sign : Operator}
      (hsign : sign ≠ .mul) (index : Int) :
      Derives style .sum left leftExpr → Derives style .term right rightExpr →
      Derives style .sum (left ++ ⟨index, .operator sign⟩ :: right)
        (.binary sign leftExpr rightExpr)

end DiceOdds.Grammar
