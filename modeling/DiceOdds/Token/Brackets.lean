import DiceOdds.Token

/-!
# Matching brackets

A stream is balanced when every closing bracket has an opening one before it and no opening bracket
is left over.  Otherwise the culprit is the first closing bracket without a partner or, if every
closing bracket has one, the innermost opening bracket that is still open at the end.
-/

namespace DiceOdds.Token

/-- The index of the culprit, where `opened` holds the indices of the brackets that are open so
far, innermost first. -/
def unmatchedAfter? (opened : List Int) : List Token → Option Int
  | [] => opened.head?
  | token :: rest =>
    match token.kind with
    | .opening => unmatchedAfter? (token.index :: opened) rest
    | .closing =>
        match opened with
        | [] => some token.index
        | _ :: opened => unmatchedAfter? opened rest
    | _ => unmatchedAfter? opened rest

def unmatched? (tokens : List Token) : Option Int :=
  unmatchedAfter? [] tokens

end DiceOdds.Token
