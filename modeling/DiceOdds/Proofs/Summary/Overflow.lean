import DiceOdds.Chart
import DiceOdds.Proofs.Accepted
import DiceOdds.Proofs.Binary64
import DiceOdds.Proofs.EqualDice
import DiceOdds.Proofs.Summary

/-!
# Only the mean overflows

Where the weights are not negative, every chance is a proportion and none is too large for a number.
The mean is no proportion: it is as large as the outcomes, and an accepted text has a summary up to
the point where the mean rounds past the largest number.  Up to there, the one thing that can be
wrong with a summary is an integer that is too long: the total weight grows much faster than the
mean.
-/

namespace DiceOdds

open Binary64

/-- A step that goes well for every item goes well for the list. -/
theorem exists_mapM_eq_ok {α β ε : Type} {step : α → Except ε β} {items : List α}
    (hstep : ∀ item ∈ items, ∃ result, step item = .ok result) :
    ∃ results, items.mapM step = .ok results := by
  induction items with
  | nil => exact ⟨[], rfl⟩
  | cons item items ih =>
      obtain ⟨⟨first, hfirst⟩, hrest⟩ := List.forall_mem_cons.1 hstep
      obtain ⟨rest, hmapM⟩ := ih hrest
      refine ⟨first :: rest, ?_⟩
      rw [List.mapM_cons, hfirst, hmapM]
      rfl

namespace Distribution

variable {odds : Distribution}

theorem Proper.le_totalWeight (hproper : odds.Proper) {weight : ℤ} (hmem : weight ∈ odds.weights) :
    0 ≤ weight ∧ weight ≤ odds.totalWeight := by
  refine ⟨hproper.weights_nonneg weight hmem, ?_⟩
  rw [totalWeight_eq_sum]
  exact List.single_le_sum hproper.weights_nonneg weight hmem

/-- Every weight of a proper distribution is a part of the total weight. -/
theorem Proper.exists_divide (hproper : odds.Proper) {weight : ℤ} (hmem : weight ∈ odds.weights) :
    ∃ chance, divide weight odds.totalWeight = .ok chance := by
  obtain ⟨hnonneg, hle⟩ := hproper.le_totalWeight hmem
  exact exists_divide_of_le hnonneg hle hproper.totalWeight_pos

theorem Proper.exists_chances (hproper : odds.Proper) : ∃ chances, odds.chances = .ok chances := by
  apply exists_mapM_eq_ok
  rintro ⟨value, weight⟩ hmem
  have hweight : weight ∈ odds.weights := by
    rw [← map_snd_outcomes]
    exact List.mem_map_of_mem hmem
  obtain ⟨chance, hchance⟩ := hproper.exists_divide hweight
  refine ⟨(value, chance), ?_⟩
  dsimp only
  rw [hchance]
  rfl

/-- The outcomes of a proper distribution and their chances make a frame. -/
theorem Proper.exists_frame (hproper : odds.Proper) {Frame : Type} {plotter : Plotter Frame}
    (hframes : plotter.MakesFrames) : ∃ frame, odds.frame plotter = .ok frame := by
  obtain ⟨chances, hchances⟩ := hproper.exists_chances
  obtain ⟨frame, hframe⟩ := hframes (.ofString "value") (.ofString "probability") chances
  exact ⟨frame, bind_eq_ok_iff.2
    ⟨chances, mapError_eq_ok_iff.2 hchances, mapError_eq_ok_iff.2 hframe⟩⟩

/-- The mode is an outcome, so it is no longer than the longer end of the range. -/
theorem summaryFits_iff (odds : Distribution) :
    odds.SummaryFits ↔
      Text.Fits odds.minimum ∧ Text.Fits odds.maximum ∧ Text.Fits odds.totalWeight := by
  constructor
  · rintro ⟨hminimum, hmaximum, -, htotal⟩
    exact ⟨hminimum, hmaximum, htotal⟩
  · rintro ⟨hminimum, hmaximum, htotal⟩
    have hindex : odds.weights.idxOf odds.maxWeight < odds.weights.length :=
      List.idxOf_lt_length_of_mem (List.max_mem odds.nonempty)
    refine ⟨hminimum, hmaximum, hminimum.between hmaximum ?_ ?_, htotal⟩
    · rw [minimum, mode]
      omega
    · rw [maximum, mode, size]
      omega

/-- A proper distribution has a mean unless it is too large, and the chance of its mode. -/
theorem Proper.mean_cases (hproper : odds.Proper) :
    (odds.mean = .error .tooLarge ∧ overflowLimit ≤ |(odds.weightedSum : ℚ)| / odds.totalWeight) ∨
      ∃ mean chance, odds.mean = .ok mean ∧ odds.chanceOfMode = .ok chance ∧
        |(odds.weightedSum : ℚ)| / odds.totalWeight < overflowLimit := by
  have hmode : odds.maxWeight ∈ odds.weights := List.max_mem odds.nonempty
  obtain ⟨chance, hchance⟩ := hproper.exists_divide hmode
  obtain hlarge | ⟨mean, hmean, hlimit⟩ := divide_cases odds.weightedSum hproper.totalWeight_pos
  · exact .inl hlarge
  · exact .inr ⟨mean, chance, hmean, hchance, hlimit⟩

theorem summary_of_mean_error {error : DivisionError} (hmean : odds.mean = .error error)
    (label : Text) : summary label odds = .error (.division error) := by
  rw [summary, hmean]
  rfl

end Distribution

namespace Expr

/-- An accepted text has odds, which make a frame.  Their summary fails with a mean that is too
large from half a unit above the largest number on.  Below that it fails if an end of the range or
the total weight has too many digits to be written, and is shown otherwise, under any label. -/
theorem summary_of_accepted_text {Frame : Type} {plotter : Plotter Frame}
    (hframes : plotter.MakesFrames) {text : Text} {expr : Expr} (hparse : parse text = .ok expr) :
    ∃ odds, expr.odds = .ok odds ∧ (∃ frame, odds.frame plotter = .ok frame) ∧
      ∀ label,
        (summary label odds = .error (.division .tooLarge) ↔
          2 ^ 1024 - 2 ^ 970 ≤ |(odds.weightedSum : ℚ)| / odds.totalWeight) ∧
        (summary label odds = .error .tooManyDigits ↔
          |(odds.weightedSum : ℚ)| / odds.totalWeight < 2 ^ 1024 - 2 ^ 970 ∧
            ¬ (Text.Fits odds.minimum ∧ Text.Fits odds.maximum ∧ Text.Fits odds.totalWeight)) ∧
        ((∃ shown, summary label odds = .ok shown) ↔
          |(odds.weightedSum : ℚ)| / odds.totalWeight < 2 ^ 1024 - 2 ^ 970 ∧
            Text.Fits odds.minimum ∧ Text.Fits odds.maximum ∧ Text.Fits odds.totalWeight) := by
  obtain ⟨odds, hodds, hproper⟩ := exists_odds_of_parse hparse
  refine ⟨odds, hodds, hproper.exists_frame hframes, fun label => ?_⟩
  rw [← overflowLimit, ← Distribution.summaryFits_iff]
  obtain ⟨hmean, hlimit⟩ | ⟨mean, chance, hmean, hchance, hlimit⟩ := hproper.mean_cases
  · rw [Distribution.summary_of_mean_error hmean]
    refine ⟨iff_of_true rfl hlimit, iff_of_false ?_ fun hbelow => hlimit.not_gt hbelow.1,
      iff_of_false ?_ fun hbelow => hlimit.not_gt hbelow.1⟩
    · rw [Except.error.injEq]
      exact Failure.noConfusion
    · rintro ⟨shown, ⟨⟩⟩
  · rw [summary_eq_error_iff hmean hchance, summary_eq_error_iff hmean hchance]
    refine ⟨iff_of_false ?_ hlimit.not_ge, ?_, ?_⟩
    · rintro ⟨-, ⟨⟩⟩
    · rw [and_iff_left rfl, and_iff_right hlimit]
    · rw [and_iff_right hlimit]
      constructor
      · rintro ⟨shown, hshown⟩
        obtain ⟨_, _, -, -, hfits, -⟩ := summary_eq_ok_iff.1 hshown
        exact hfits
      · intro hfits
        exact ⟨_, summary_eq_ok_iff.2 ⟨mean, chance, hmean, hchance, hfits, rfl⟩⟩

/-- The mean of a number is the number. -/
theorem abs_mean_point {value : ℤ} (hvalue : 0 ≤ value) :
    |((Distribution.point value).weightedSum : ℚ)| / (Distribution.point value).totalWeight =
      value := by
  have hcast : (0 : ℚ) ≤ value := Int.cast_nonneg hvalue
  simp [Distribution.weightedSum, Distribution.totalWeight, Distribution.outcomes,
    Distribution.point, abs_of_nonneg hcast]

theorem fits_two_pow : Text.Fits (2 ^ 1024) := by
  rw [Text.fits_iff, Int.natAbs_pow]
  decide +kernel

/-- The least numeral that is accepted and has too large a mean, and the one before it. -/
theorem summary_of_overflowLimit :
    Plotter.bare.MakesFrames ∧
      parse (.ofInt (2 ^ 1024 - 2 ^ 970)) = .ok (number (2 ^ 1024 - 2 ^ 970)) ∧
      (∀ label, summary label (.point (2 ^ 1024 - 2 ^ 970)) = .error (.division .tooLarge)) ∧
      ∀ label, ∃ shown, summary label (.point (2 ^ 1024 - 2 ^ 970 - 1)) = .ok shown := by
  have hcast : ((2 ^ 1024 - 2 ^ 970 : ℤ) : ℚ) = 2 ^ 1024 - 2 ^ 970 := by
    rw [Int.cast_sub, Int.cast_pow, Int.cast_pow, Int.cast_ofNat]
  have hpositive : 1 < (2 ^ 1024 - 2 ^ 970 : ℤ) := by
    rw [← Int.cast_lt (R := ℚ), hcast, Int.cast_one]
    exact one_lt_overflowLimit
  have hbelow : (2 ^ 1024 - 2 ^ 970 - 1 : ℤ) ≤ 2 ^ 1024 :=
    (sub_le_self _ zero_le_one).trans (sub_le_self _ (by positivity))
  generalize (2 ^ 1024 - 2 ^ 970 : ℤ) = limit at *
  have hframes := Plotter.bare_makesFrames
  have hparse : parse (.ofInt limit) = .ok (number limit) := parse_ofInt (by omega)
  refine ⟨hframes, hparse, fun label => ?_, fun label => ?_⟩
  · obtain ⟨odds, hodds, -, hsummary⟩ := summary_of_accepted_text hframes hparse
    obtain rfl : Distribution.point limit = odds := Except.ok.inj hodds
    rw [(hsummary label).1, abs_mean_point (by omega), hcast]
  · obtain ⟨odds, hodds, -, hsummary⟩ :=
      summary_of_accepted_text hframes (parse_ofInt (show 0 ≤ limit - 1 by omega))
    obtain rfl : Distribution.point (limit - 1) = odds := Except.ok.inj hodds
    have hless : ((limit - 1 : ℤ) : ℚ) < 2 ^ 1024 - 2 ^ 970 := by
      rw [← hcast]
      exact_mod_cast sub_one_lt limit
    have hfits : Text.Fits (limit - 1) :=
      .between (show Text.Fits 0 by decide) fits_two_pow (by omega) hbelow
    have htotal : Text.Fits (Distribution.point (limit - 1)).totalWeight :=
      show Text.Fits 1 by decide
    have hmaximum : (Distribution.point (limit - 1)).maximum = limit - 1 :=
      sub_eq_of_eq_add rfl
    rw [(hsummary label).2.2, abs_mean_point (by omega), hmaximum]
    exact ⟨hless, hfits, hfits, htotal⟩

/-! ### A total weight that is too long -/

def manyCoins : Expr :=
  binary .mul (number 14285) (die { faces := 2 })

/-- The mean of so many coins is small, but there are more ways to toss them than can be written. -/
theorem summary_of_manyCoins :
    parse (.ofString "14285d2") = .ok manyCoins ∧
      ∃ odds, manyCoins.odds = .ok odds ∧
        |(odds.weightedSum : ℚ)| / odds.totalWeight < 2 ^ 1024 - 2 ^ 970 ∧
        ∀ label, summary label odds = .error .tooManyDigits := by
  have hparse : parse (.ofString "14285d2") = .ok manyCoins := by decide
  obtain ⟨odds, hodds, hcoins⟩ := exists_odds_equalDice 14285 one_le_two
  have hproper := proper_of_parse hparse hodds
  have hmean : |(odds.weightedSum : ℚ)| / odds.totalWeight < overflowLimit := by
    have htotal : (0 : ℚ) < odds.totalWeight := Int.cast_pos.2 hproper.totalWeight_pos
    have hsum : 2 * odds.weightedSum = 42855 * odds.totalWeight := by
      rw [hcoins.palindromic.two_mul_weightedSum, hcoins.ends_eq]
      norm_num
    have hcast : (odds.weightedSum : ℚ) = 42855 / 2 * odds.totalWeight := by
      have hdouble : (2 * odds.weightedSum : ℚ) = 42855 * odds.totalWeight := mod_cast hsum
      linarith
    have hunit : (1 : ℚ) ≤ 2 ^ 970 := one_le_pow₀ one_le_two
    rw [hcast, abs_of_nonneg (by positivity), mul_div_cancel_right₀ _ htotal.ne', overflowLimit_eq]
    generalize (2 : ℚ) ^ 970 = unit at *
    linarith
  have hlong : ¬ odds.SummaryFits := by
    rw [Distribution.summaryFits_iff]
    rintro ⟨-, -, htotal⟩
    rw [hcoins.totalWeight_eq, Text.fits_iff, Int.natAbs_pow] at htotal
    exact absurd htotal (by decide +kernel)
  refine ⟨hparse, odds, hodds, hmean, fun label => ?_⟩
  obtain ⟨-, hlimit⟩ | ⟨mean, chance, hfinite, hchance, -⟩ := hproper.mean_cases
  · exact absurd hmean hlimit.not_gt
  · exact (summary_eq_error_iff hfinite hchance).2 ⟨hlong, rfl⟩

end Expr

end DiceOdds
