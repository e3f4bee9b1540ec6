/-!
# Computations that draw at random

A computation that needs random draws is a tree: each node asks for a draw from 1 to some number of
faces and goes on as the answer says.  Which draws are asked for may depend on earlier answers.  A
`Source` answers the calls in turn until it runs dry.
-/

namespace DiceOdds

inductive Draws (α : Type)
  | done (result : α)
  | ask (faces : Int) (next : Int → Draws α)

namespace Draws

def bind {α β : Type} : Draws α → (α → Draws β) → Draws β
  | done result, continuation => continuation result
  | ask faces next, continuation => ask faces fun value => (next value).bind continuation

instance : Monad Draws where
  pure := done
  bind := bind

end Draws

/-- Answers a call for a draw from 1 to `faces` and moves on to its next state, or has run dry. -/
structure Source (σ : Type) where
  draw : (faces : Int) → σ → Option (Int × σ)

/-- What becomes of a computation: its result, unless the source ran dry, the faces of all calls in
order, the one that found the source dry included, and the state in which the source is left. -/
structure Play (σ α : Type) where
  result : Option α
  calls : List Int
  state : σ

namespace Draws

variable {σ α : Type}

/-- Goes on after the calls in `earlier`, the latest first. -/
def runAfter (source : Source σ) (earlier : List Int) : Draws α → σ → Play σ α
  | done result, state => ⟨some result, earlier.reverse, state⟩
  | ask faces next, state =>
    match source.draw faces state with
    | none => ⟨none, (faces :: earlier).reverse, state⟩
    | some (value, state) => (next value).runAfter source (faces :: earlier) state

def run (source : Source σ) (draws : Draws α) (state : σ) : Play σ α :=
  draws.runAfter source [] state

/-- Runs the computation so many times, each time from where the last one left the source.  A run
that finds the source dry is the last. -/
def runs (source : Source σ) (draws : Draws α) : Nat → σ → List (Play σ α)
  | 0, _ => []
  | times + 1, state =>
    let play := draws.run source state
    play :: if play.result.isSome then draws.runs source times play.state else []

/-- Earlier calls change nothing but the record of the calls. -/
theorem runAfter_eq (source : Source σ) (earlier : List Int) (draws : Draws α) (state : σ) :
    draws.runAfter source earlier state =
      { draws.run source state with
        calls := earlier.reverse ++ (draws.run source state).calls } := by
  unfold run
  induction draws generalizing earlier state with
  | done result => simp [runAfter]
  | ask faces next ih =>
      simp only [runAfter]
      split
      · simp
      · rename_i value state _
        rw [ih value (faces :: earlier), ih value [faces]]
        simp

end Draws

namespace Source

/-- Hands out the draws of a list in order, whatever the faces. -/
def scripted : Source (List Int) where
  draw _
    | [] => none
    | value :: rest => some (value, rest)

/-- A linear congruential generator of 64 bits whose upper bits pick the draw.  It never runs
dry. -/
def congruential : Source UInt64 where
  draw faces state :=
    let state := state * 6364136223846793005 + 1442695040888963407
    some (1 + Int.fmod (state >>> 33).toNat faces, state)

/-- One of two sources, as the state says. -/
def either {σ τ : Type} (left : Source σ) (right : Source τ) : Source (σ ⊕ τ) where
  draw faces
    | .inl state => (left.draw faces state).map fun (value, state) => (value, .inl state)
    | .inr state => (right.draw faces state).map fun (value, state) => (value, .inr state)

end Source

end DiceOdds
