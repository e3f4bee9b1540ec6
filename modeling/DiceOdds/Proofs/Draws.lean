import DiceOdds.Draws

/-!
# Runs of a computation that draws

What is done to the result of a computation changes nothing about its calls or the source, and a
source that answers every call leads every computation to a result.
-/

namespace DiceOdds

variable {σ α β : Type}

/-- The source answers every call. -/
def Source.Endless (source : Source σ) : Prop :=
  ∀ faces state, (source.draw faces state).isSome = true

theorem Source.endless_congruential : Source.congruential.Endless :=
  fun _ _ => rfl

/-- The same run with another result. -/
def Play.map (function : α → β) (play : Play σ α) : Play σ β where
  result := play.result.map function
  calls := play.calls
  state := play.state

namespace Draws

theorem run_ask_of_none {source : Source σ} {faces : Int} {state : σ}
    (hdraw : source.draw faces state = none) (next : Int → Draws α) :
    (ask faces next).run source state = ⟨none, [faces], state⟩ := by
  rw [run, runAfter, hdraw]
  rfl

theorem run_ask_of_some {source : Source σ} {faces value : Int} {state after : σ}
    (hdraw : source.draw faces state = some (value, after)) (next : Int → Draws α) :
    (ask faces next).run source state =
      { (next value).run source after with
        calls := faces :: ((next value).run source after).calls } := by
  rw [run, runAfter, hdraw]
  exact runAfter_eq source [faces] (next value) after

theorem run_map (source : Source σ) (draws : Draws α) (function : α → β) (state : σ) :
    (draws.bind fun result => .done (function result)).run source state =
      (draws.run source state).map function := by
  induction draws generalizing state with
  | done result => rfl
  | ask faces next ih =>
      rw [bind]
      cases hdraw : source.draw faces state with
      | none => rw [run_ask_of_none hdraw, run_ask_of_none hdraw]; rfl
      | some answer =>
          obtain ⟨value, after⟩ := answer
          rw [run_ask_of_some hdraw, run_ask_of_some hdraw, ih]
          rfl

theorem exists_result {source : Source σ} (hendless : source.Endless) (draws : Draws α)
    (state : σ) : ∃ result, (draws.run source state).result = some result := by
  induction draws generalizing state with
  | done result => exact ⟨result, rfl⟩
  | ask faces next ih =>
      obtain ⟨⟨value, after⟩, hdraw⟩ := Option.isSome_iff_exists.1 (hendless faces state)
      rw [run_ask_of_some hdraw]
      exact ih value after

end Draws

end DiceOdds
