import DiceOdds.Proofs.Law

/-!
# Laws without negative weights

Laws are compared point by point.  Combinations, powers and pools of laws without negative weights
have none either, and every pair of results leaves its weight behind.
-/

namespace DiceOdds.Law

variable {R : Type*} [CommRing R] [PartialOrder R] [IsOrderedRing R]
variable {left right left' right' : Law R}

theorem combine_nonneg (operation : ℤ → ℤ → ℤ) (hleft : 0 ≤ left) (hright : 0 ≤ right) :
    0 ≤ combine operation left right := by
  intro result
  rw [combine_apply]
  apply Finset.sum_nonneg
  intro leftValue _
  apply Finset.sum_nonneg
  intro rightValue _
  split
  · exact mul_nonneg (hleft leftValue) (hright rightValue)
  · exact le_rfl

theorem combine_mono (operation : ℤ → ℤ → ℤ) (hleft : left ≤ left') (hright : right ≤ right')
    (hnonneg : 0 ≤ left') (hnonneg' : 0 ≤ right) :
    combine operation left right ≤ combine operation left' right' := by
  calc combine operation left right
      ≤ combine operation left' right := by
        rw [← sub_nonneg, ← LinearMap.map_sub₂]
        exact combine_nonneg operation (sub_nonneg.2 hleft) hnonneg'
    _ ≤ combine operation left' right' := by
        rw [← sub_nonneg, ← map_sub]
        exact combine_nonneg operation hnonneg (sub_nonneg.2 hright)

omit [IsOrderedRing R] in
theorem single_le {law : Law R} (hlaw : 0 ≤ law) (value : ℤ) :
    Finsupp.single value (law value) ≤ law := by
  intro other
  rw [Finsupp.single_apply]
  split
  · next hsame => rw [hsame]
  · exact hlaw other

/-- A pair of results weighs at least the product of the two weights. -/
theorem mul_le_combine (operation : ℤ → ℤ → ℤ) (hleft : 0 ≤ left) (hright : 0 ≤ right)
    (leftValue rightValue : ℤ) :
    left leftValue * right rightValue ≤
      combine operation left right (operation leftValue rightValue) := by
  have hpair := combine_mono operation (single_le hleft leftValue) (single_le hright rightValue)
    hleft (Finsupp.single_nonneg.2 (hright rightValue))
  have hvalue := hpair (operation leftValue rightValue)
  rwa [combine_single_single, Finsupp.single_eq_same] at hvalue

theorem total_nonneg {law : Law R} (hlaw : 0 ≤ law) : 0 ≤ total law := by
  rw [total, Finsupp.linearCombination_apply]
  apply Finsupp.sum_nonneg
  intro value _
  exact mul_nonneg (hlaw value) zero_le_one

theorem power_nonneg {law : Law R} (hlaw : 0 ≤ law) (count : ℕ) : 0 ≤ power law count := by
  induction count with
  | zero => exact Finsupp.single_nonneg.2 zero_le_one
  | succ count ih => exact combine_nonneg _ hlaw ih

theorem pool_nonneg {die counts : Law R} (hdie : 0 ≤ die) (hcounts : 0 ≤ counts) :
    0 ≤ pool die counts := by
  rw [pool, Finsupp.linearCombination_apply]
  apply Finsupp.sum_nonneg
  intro count _
  exact smul_nonneg (hcounts count) (power_nonneg hdie count.toNat)

end DiceOdds.Law
