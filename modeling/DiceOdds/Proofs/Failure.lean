import DiceOdds.Failure

/-!
# Steps that can fail

A computation that goes step by step has a result if every step has one.  Otherwise it fails like
the first step without a result.
-/

namespace DiceOdds

section

variable {ε ε' α β : Type} {step : Except ε α} {next : α → Except ε β}

theorem bind_eq_ok_iff {result : β} :
    step >>= next = .ok result ↔ ∃ middle, step = .ok middle ∧ next middle = .ok result := by
  cases step with
  | error error => exact iff_of_false nofun fun ⟨_, hstep, _⟩ => nomatch hstep
  | ok middle =>
      constructor
      · exact fun hnext => ⟨middle, rfl, hnext⟩
      · rintro ⟨_, ⟨⟩, hnext⟩
        exact hnext

theorem bind_eq_error_iff {error : ε} :
    step >>= next = .error error ↔
      step = .error error ∨ ∃ middle, step = .ok middle ∧ next middle = .error error := by
  cases step with
  | error own =>
      constructor
      · exact fun hown => .inl (congrArg _ (Except.error.inj hown))
      · rintro (hown | ⟨_, ⟨⟩, _⟩)
        exact congrArg _ (Except.error.inj hown)
  | ok middle =>
      constructor
      · exact fun hnext => .inr ⟨middle, rfl, hnext⟩
      · rintro (⟨⟨⟩⟩ | ⟨_, ⟨⟩, hnext⟩)
        exact hnext

theorem mapError_eq_ok_iff {convert : ε → ε'} {result : α} :
    step.mapError convert = .ok result ↔ step = .ok result := by
  cases step with
  | error error => exact iff_of_false nofun nofun
  | ok middle => exact ⟨fun heq => congrArg _ (Except.ok.inj heq),
      fun heq => congrArg _ (Except.ok.inj heq)⟩

theorem mapError_eq_error_iff {convert : ε → ε'} {error : ε'} :
    step.mapError convert = .error error ↔ ∃ own, step = .error own ∧ convert own = error := by
  cases step with
  | error own =>
      constructor
      · exact fun heq => ⟨own, rfl, Except.error.inj heq⟩
      · rintro ⟨_, ⟨⟩, rfl⟩
        rfl
  | ok middle => exact iff_of_false nofun fun ⟨_, hstep, _⟩ => nomatch hstep

end

namespace Failure

variable {α : Type} {written : Option α}

theorem ofWritten_eq_ok_iff {result : α} :
    ofWritten written = .ok result ↔ written = some result := by
  cases written with
  | none => exact iff_of_false nofun nofun
  | some result => exact ⟨fun heq => congrArg _ (Except.ok.inj heq),
      fun heq => congrArg _ (Option.some.inj heq)⟩

theorem ofWritten_eq_error_iff {failure : Failure} :
    ofWritten written = .error failure ↔ written = none ∧ failure = .tooManyDigits := by
  cases written with
  | none => exact ⟨fun heq => ⟨rfl, (Except.error.inj heq).symm⟩, fun heq => congrArg _ heq.2.symm⟩
  | some result => exact iff_of_false nofun fun ⟨hnone, _⟩ => nomatch hnone

end Failure

end DiceOdds
