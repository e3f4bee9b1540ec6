/-!
# Time limits

A command may be given a limited time.  When that time is up is not known beforehand, but it can
only cut a command off while the command waits for something.
-/

namespace DiceOdds.Chat

/-- What a command waits for. -/
inductive Wait
  /-- its roll or its odds -/
  | evaluation
  /-- the picture of its chart -/
  | picture
  /-- the delivery of its result -/
  | delivery
  deriving DecidableEq

inductive Limit
  /-- no time at all -/
  | spent
  /-- a time that runs out during this wait, if it runs out before the command has ended -/
  | lasting (expiry : Option Wait)
  /-- nothing is known of it -/
  | missing
  /-- nothing that could be a time -/
  | invalid
  deriving DecidableEq

/-- All the time that it takes. -/
def Limit.unlimited : Limit :=
  .lasting none

/-- The time is up before this wait is over. -/
def Limit.CutsOff (limit : Limit) (wait : Wait) : Prop :=
  limit = .lasting (some wait)

instance (limit : Limit) (wait : Wait) : Decidable (limit.CutsOff wait) :=
  inferInstanceAs (Decidable (limit = .lasting (some wait)))

end DiceOdds.Chat
