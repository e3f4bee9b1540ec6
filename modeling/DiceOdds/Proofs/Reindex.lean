import DiceOdds.Fault
import DiceOdds.Token

/-!
# Other indices

An index says where a token or a fault is, and nothing else.  What was read can be moved to other
indices as a whole, whether it is a list of tokens or a fault.
-/

namespace DiceOdds

def Token.reindex (place : Int → Int) (token : Token) : Token :=
  { token with index := place token.index }

def Fault.reindex (place : Int → Int) (fault : Fault) : Fault :=
  { fault with index := place fault.index }

namespace Token

variable {place : Int → Int}

/-- What was read, at other indices. -/
def reindexed (place : Int → Int) : Except Fault (List Token) → Except Fault (List Token)
  | .ok tokens => .ok (tokens.map (reindex place))
  | .error fault => .error (fault.reindex place)

/-- Two readings one after the other, with tokens between them, are moved one by one. -/
theorem reindexed_bind (first second : Except Fault (List Token)) (own : List Token) :
    (reindexed place do
      let before ← first
      let after ← second
      return before ++ (own ++ after)) = do
      let before ← reindexed place first
      let after ← reindexed place second
      return before ++ (own.map (reindex place) ++ after) := by
  cases first with
  | error fault => rfl
  | ok before =>
    cases second with
    | error fault => rfl
    | ok after =>
        change Except.ok ((before ++ (own ++ after)).map (reindex place)) = _
        rw [List.map_append, List.map_append]
        rfl

end Token

end DiceOdds
