import DiceOdds.Proofs.Failure
import DiceOdds.Proofs.Json.Numbers
import DiceOdds.Summary

/-!
# What a summary needs and what it tells

A summary fails if the mean or a chance is no number, and after that if an integer in it cannot be
written.  It tells the range, but all it knows of the weights are a few totals, so different weights
can share a summary.
-/

namespace DiceOdds

variable {odds : Distribution}

/-- The integers in the summary can be written. -/
def Distribution.SummaryFits (odds : Distribution) : Prop :=
  Text.Fits odds.minimum ∧ Text.Fits odds.maximum ∧ Text.Fits odds.mode ∧
    Text.Fits odds.totalWeight

theorem summary_eq_ok_iff {label text : Text} :
    summary label odds = .ok text ↔
      ∃ mean chance, odds.mean = .ok mean ∧ odds.chanceOfMode = .ok chance ∧ odds.SummaryFits ∧
        text = .ofString "**Input:** " ++ (label ++ (.ofString "\n**Range:** " ++
          (.ofInt odds.minimum ++ (.ofString " to " ++ (.ofInt odds.maximum ++
            (.ofString "\n**Most likely:** " ++ (.ofInt odds.mode ++ (.ofString " (" ++
              (percentage chance ++ (.ofString ")\n**Mean:** " ++ (mean.fixed 2 ++
                (.ofString "\n**Total weight:** " ++ .ofInt odds.totalWeight)))))))))))) := by
  simp only [summary, bind_eq_ok_iff, mapError_eq_ok_iff, Failure.ofWritten_eq_ok_iff,
    Text.ofInt?_eq_some_iff, List.append_assoc]
  constructor
  · rintro ⟨mean, hmean, chance, hchance, _, ⟨hminimum, rfl⟩, _, ⟨hmaximum, rfl⟩, _, ⟨hmode, rfl⟩,
      _, ⟨htotal, rfl⟩, htext⟩
    exact ⟨mean, chance, hmean, hchance, ⟨hminimum, hmaximum, hmode, htotal⟩,
      (Except.ok.inj htext).symm⟩
  · rintro ⟨mean, chance, hmean, hchance, ⟨hminimum, hmaximum, hmode, htotal⟩, rfl⟩
    exact ⟨mean, hmean, chance, hchance, _, ⟨hminimum, rfl⟩, _, ⟨hmaximum, rfl⟩, _, ⟨hmode, rfl⟩, _,
      ⟨htotal, rfl⟩, rfl⟩

/-- If every quotient is a number, only integers that are too long keep a summary from being
written. -/
theorem summary_eq_error_iff {label : Text} {mean chance : Binary64} (hmean : odds.mean = .ok mean)
    (hchance : odds.chanceOfMode = .ok chance) {failure : Failure} :
    summary label odds = .error failure ↔ ¬ odds.SummaryFits ∧ failure = .tooManyDigits := by
  simp only [summary, bind_eq_error_iff, mapError_eq_ok_iff, mapError_eq_error_iff, hmean, hchance,
    Failure.ofWritten_eq_error_iff, Failure.ofWritten_eq_ok_iff, Text.ofInt?_eq_none_iff,
    Text.ofInt?_eq_some_iff, Except.ok.injEq, reduceCtorEq, false_and, exists_false, false_or,
    exists_eq_left', and_assoc, exists_and_left, exists_eq_left, pure, Except.pure, and_false,
    or_false]
  rw [Distribution.SummaryFits]
  grind

theorem head?_summary {label text : Text} (hsummary : summary label odds = .ok text) :
    text.head? = some (.scalar '*') := by
  obtain ⟨mean, chance, -, -, -, rfl⟩ := summary_eq_ok_iff.1 hsummary
  rfl

/-- Two distributions with the same summary have the same range. -/
theorem range_eq_of_summary {other : Distribution} {label text : Text}
    (hsummary : summary label odds = .ok text) (hother : summary label other = .ok text) :
    odds.start = other.start ∧ odds.size = other.size := by
  obtain ⟨_, _, -, -, -, htext⟩ := summary_eq_ok_iff.1 hsummary
  obtain ⟨_, _, -, -, -, hotherText⟩ := summary_eq_ok_iff.1 hother
  have hrange := List.append_cancel_left (List.append_cancel_left (List.append_cancel_left
    (htext.symm.trans hotherText)))
  have hto (after : Text) : Json.EndsNumber (.ofString " to " ++ after) :=
    Json.endsNumber_cons rfl (by decide) _
  have hline (after : Text) : Json.EndsNumber (.ofString "\n**Most likely:** " ++ after) :=
    Json.endsNumber_cons rfl (by decide) _
  obtain ⟨hminimum, hmore⟩ := Json.ofInt_append_inj (hto _) (hto _) hrange
  obtain ⟨hmaximum, -⟩ :=
    Json.ofInt_append_inj (hline _) (hline _) (List.append_cancel_left hmore)
  simp only [Distribution.minimum, Distribution.maximum] at hminimum hmaximum
  exact ⟨hminimum, by omega⟩

/-- The totals that the summary knows. -/
theorem summary_congr {other : Distribution} (hsize : odds.size = other.size)
    (hstart : odds.start = other.start) (hmode : odds.mode = other.mode)
    (hmaxWeight : odds.maxWeight = other.maxWeight)
    (htotal : odds.totalWeight = other.totalWeight)
    (hsum : odds.weightedSum = other.weightedSum) (label : Text) :
    summary label odds = summary label other := by
  simp only [summary, Distribution.mean, Distribution.chanceOfMode, Distribution.minimum,
    Distribution.maximum, hsize, hstart, hmode, hmaxWeight, htotal, hsum]

end DiceOdds
