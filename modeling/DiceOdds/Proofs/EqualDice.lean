import DiceOdds.Distribution.Chances
import DiceOdds.Proofs.Agreement
import DiceOdds.Proofs.Distribution.Mixture
import DiceOdds.Proofs.Law.EqualDice

/-!
# The shape of a pool of equal dice

The weights of so many equal dice read the same from both ends, which settles where their mean lies.
From two dice on they grow strictly up to the middle, where the mode is.
-/

namespace DiceOdds

namespace Distribution

variable {odds : Distribution}

theorem getElem_weights {index : ℕ} (hindex : index < odds.weights.length) :
    odds.weights[index] = odds.weightAt (odds.start + index) := by
  rw [weightAt_start_add, List.getD_eq_getElem _ _ hindex]

/-- The weights read the same from both ends of the range. -/
def Palindromic (odds : Distribution) : Prop :=
  ∀ value, odds.weightAt (odds.minimum + odds.maximum - value) = odds.weightAt value

theorem Palindromic.reverse_weights (hpalindromic : odds.Palindromic) :
    odds.weights.reverse = odds.weights := by
  apply List.ext_getElem List.length_reverse
  intro index _ hindex
  rw [List.getElem_reverse, getElem_weights, getElem_weights, ← hpalindromic]
  congr 1
  rw [minimum, maximum, size]
  omega

theorem weightedSum_eq (odds : Distribution) :
    odds.weightedSum = Finsupp.linearCombination ℤ (fun value : ℤ => value) odds.law := by
  rw [weightedSum, law]
  induction odds.outcomes with
  | nil => exact (map_zero _).symm
  | cons entry entries ih =>
      rw [entriesLaw_cons, map_add, Finsupp.linearCombination_single, ← ih, List.foldr_cons,
        smul_eq_mul, mul_comm]

/-- The mean lies in the middle of the range, since an outcome is as likely as its mirror image and
the two add up to the ends of the range. -/
theorem Palindromic.two_mul_weightedSum (hpalindromic : odds.Palindromic) :
    2 * odds.weightedSum = (odds.minimum + odds.maximum) * odds.totalWeight := by
  have hmirror : Finsupp.mapDomain (odds.minimum + odds.maximum - ·) odds.law = odds.law := by
    ext value
    have happly := Finsupp.mapDomain_apply (sub_right_injective (b := odds.minimum + odds.maximum))
      odds.law (odds.minimum + odds.maximum - value)
    rwa [sub_sub_cancel, law_apply, hpalindromic, ← law_apply] at happly
  calc 2 * odds.weightedSum
      = Finsupp.linearCombination ℤ (fun value : ℤ => value) odds.law +
          Finsupp.linearCombination ℤ (fun value : ℤ => value)
            (Finsupp.mapDomain (odds.minimum + odds.maximum - ·) odds.law) := by
        rw [hmirror, weightedSum_eq, two_mul]
    _ = (odds.minimum + odds.maximum) * Law.total odds.law := by
        rw [Finsupp.linearCombination_mapDomain, Law.total]
        simp only [Finsupp.linearCombination_apply, Finsupp.sum, Function.comp_apply, smul_eq_mul,
          mul_one, Finset.mul_sum, ← Finset.sum_add_distrib]
        exact Finset.sum_congr rfl fun value _ => by ring
    _ = (odds.minimum + odds.maximum) * odds.totalWeight := by rw [total_law]

/-- The mode is the first outcome that no other outweighs. -/
theorem mode_eq {value : ℤ} (hminimum : odds.minimum ≤ value) (hmaximum : value ≤ odds.maximum)
    (hfirst : ∀ other < value, odds.weightAt other < odds.weightAt value)
    (hgreatest : ∀ other, odds.weightAt other ≤ odds.weightAt value) : odds.mode = value := by
  obtain ⟨index, rfl⟩ := Int.exists_add_of_le hminimum
  have hindex : index < odds.weights.length := by
    rw [minimum, maximum, size] at hmaximum
    omega
  rw [minimum, ← getElem_weights hindex] at hfirst hgreatest
  have hmaxWeight : odds.maxWeight = odds.weights[index] := by
    refine (List.max_eq_iff odds.nonempty).2 ⟨List.getElem_mem hindex, ?_⟩
    intro weight hmem
    obtain ⟨other, rfl⟩ := exists_weightAt_of_mem hmem
    exact hgreatest other
  have hposition : odds.weights.idxOf odds.maxWeight = index := by
    rw [hmaxWeight, List.idxOf, List.findIdx_eq hindex]
    refine ⟨beq_self_eq_true _, fun earlier hearlier => beq_false_of_ne ?_⟩
    have hless := hfirst (odds.start + earlier) (by omega)
    rw [← getElem_weights (by omega)] at hless
    exact hless.ne
  rw [mode, hposition, minimum]

/-! ### Odds of equal dice -/

/-- The ways to roll so many dice, from all ones to all highest faces. -/
structure CountsEqualDice (faces count : ℕ) (odds : Distribution) : Prop where
  minimum_eq : odds.minimum = count
  maximum_eq : odds.maximum = count * faces
  law_eq : odds.law = Law.equalDice faces count

variable {faces count : ℕ}

theorem CountsEqualDice.weightAt_eq (hodds : CountsEqualDice faces count odds) (value : ℤ) :
    odds.weightAt value = Law.equalDice faces count value := by
  rw [← law_apply, hodds.law_eq]

theorem CountsEqualDice.ends_eq (hodds : CountsEqualDice faces count odds) :
    odds.minimum + odds.maximum = count * (faces + 1) := by
  rw [hodds.minimum_eq, hodds.maximum_eq, add_comm, mul_add_one]

theorem CountsEqualDice.length_eq (hodds : CountsEqualDice faces count odds) :
    odds.weights.length = count * ((faces : ℤ) - 1) + 1 := by
  have hmaximum := hodds.maximum_eq
  rw [maximum, size, ← minimum, hodds.minimum_eq] at hmaximum
  linarith

theorem CountsEqualDice.totalWeight_eq (hodds : CountsEqualDice faces count odds) :
    odds.totalWeight = faces ^ count := by
  rw [← total_law, hodds.law_eq, Law.equalDice, Law.total_power, Law.total_ofDie, one_mul,
    Int.toNat_natCast]

theorem CountsEqualDice.palindromic (hodds : CountsEqualDice faces count odds) :
    odds.Palindromic := by
  intro value
  rw [hodds.ends_eq, hodds.weightAt_eq, hodds.weightAt_eq, Law.equalDice_mirror]

theorem CountsEqualDice.getElem_lt (hodds : CountsEqualDice faces count odds)
    (hgrows : Law.Grows faces count) {index : ℕ}
    (hindex : 2 * (index + 1) ≤ count * ((faces : ℤ) - 1))
    (hnext : index + 1 < odds.weights.length) :
    odds.weights[index] < odds.weights[index + 1] := by
  have hstart : odds.start = count := hodds.minimum_eq
  have hless := hgrows (count + (index + 1 : ℕ)) (by omega) (by push_cast; linarith)
  rw [Nat.cast_succ, ← add_assoc, add_sub_cancel_right] at hless
  rwa [getElem_weights, getElem_weights, hodds.weightAt_eq, hodds.weightAt_eq, hstart,
    Nat.cast_succ, ← add_assoc]

theorem CountsEqualDice.mode_eq_middle (hodds : CountsEqualDice faces count odds)
    (hgrows : Law.Grows faces count) (hfaces : 1 ≤ faces) :
    odds.mode = Law.middle faces count := by
  apply mode_eq
  · rw [hodds.minimum_eq]
    exact Law.le_middle hfaces count
  · rw [hodds.maximum_eq]
    exact Law.middle_le hfaces count
  · simp only [hodds.weightAt_eq]
    exact fun other hbelow => hgrows.lt_middle hfaces hbelow
  · simp only [hodds.weightAt_eq]
    exact hgrows.le_middle hfaces

end Distribution

namespace Expr

open DiceOdds.Distribution

theorem exists_odds_equalDice (count : ℕ) {faces : ℕ} (hfaces : 1 ≤ faces) :
    ∃ odds, (binary .mul (number count) (die { faces })).odds = .ok odds ∧
      CountsEqualDice faces count odds := by
  obtain ⟨die, hdie, hminimum, hmaximum, hlaw⟩ := exists_uniform (Int.ofNat_le.2 hfaces)
  have hlive : (Distribution.point count).live = [((count : ℤ), 1)] := by
    simp [live, outcomes, Distribution.point]
  have hpool : (Distribution.point count).pool die = .ok (poolPart die (count, 1)) :=
    pool_eq_ok_iff.2 ⟨_, [], congrArg (List.map (poolPart die)) hlive, rfl⟩
  refine ⟨_, (odds_pool rfl hdie).trans hpool, ?_, ?_, ?_⟩
  · rw [minimum_poolPart, hminimum, mul_one, Int.toNat_natCast]
  · rw [maximum_poolPart, hmaximum, Int.toNat_natCast]
  · rw [law_poolPart, one_smul, hlaw, Int.toNat_natCast, Law.equalDice]

/-- So many equal dice reach from all ones to all highest faces, with a weight for every way to roll
them.  The weights read the same from both ends, so the mean is in the middle.  With more than one
die they grow strictly up to the middle, which is the mode, or the lower of the two in the
middle. -/
theorem odds_of_equalDice (count : ℕ) {faces : ℤ} (hfaces : 1 ≤ faces) :
    ∃ odds, (binary .mul (number count) (die { faces })).odds = .ok odds ∧
      odds.start = count ∧ odds.weights.length = count * (faces - 1) + 1 ∧
      odds.totalWeight = faces ^ count ∧ odds.weights.reverse = odds.weights ∧
      2 * odds.weightedSum = count * (faces + 1) * faces ^ count ∧
      (2 ≤ count →
        (∀ index : ℕ, 2 * (index + 1) ≤ count * (faces - 1) →
          ∃ hnext : index + 1 < odds.weights.length,
            odds.weights[index] < odds.weights[index + 1]) ∧
        odds.mode = count * (faces + 1) / 2) := by
  lift faces to ℕ using by omega
  rw [Nat.one_le_cast] at hfaces
  obtain ⟨odds, hodds, hdice⟩ := exists_odds_equalDice count hfaces
  have hlength := hdice.length_eq
  have hsum := hdice.palindromic.two_mul_weightedSum
  rw [hdice.ends_eq, hdice.totalWeight_eq] at hsum
  refine ⟨odds, hodds, hdice.minimum_eq, hlength, hdice.totalWeight_eq,
    hdice.palindromic.reverse_weights, hsum, fun hcount => ?_⟩
  have hgrows := Law.grows_of_two_le hfaces hcount
  refine ⟨fun index hindex => ?_, hdice.mode_eq_middle hgrows hfaces⟩
  have hnext : index + 1 < odds.weights.length := by omega
  exact ⟨hnext, hdice.getElem_lt hgrows hindex hnext⟩

/-- `3d6` has an even number of outcomes.  The two in the middle are equally likely, and the mode is
the lower one. -/
theorem odds_of_threeDice :
    (2 : ℕ) ≤ 3 ∧ (1 : ℤ) ≤ 6 ∧
      ∃ odds, (binary .mul (number 3) (die { faces := 6 })).odds = .ok odds ∧
        odds.weights.length = 16 ∧ odds.totalWeight = 216 ∧ 2 * odds.weightedSum = 21 * 216 ∧
        odds.weights.reverse = odds.weights ∧ odds.mode = 10 := by
  have hcount : (2 : ℕ) ≤ 3 := by decide
  have hfaces : (1 : ℤ) ≤ 6 := by decide
  obtain ⟨odds, hodds, -, hlength, htotal, hreverse, hsum, hshape⟩ := odds_of_equalDice 3 hfaces
  obtain ⟨-, hmode⟩ := hshape hcount
  exact ⟨hcount, hfaces, odds, hodds, Int.ofNat.inj hlength, htotal, hsum, hreverse, hmode⟩

end Expr

end DiceOdds
