import DiceOdds.Proofs.Agreement
import DiceOdds.Proofs.Law.Proportion

/-!
# Ways and chances of a tree

The odds of a tree count the scripts that lead to each result, and its chances weigh every script by
how likely it is.  The odds give the exact chances if both are proportional.
-/

namespace DiceOdds

open Law

namespace Expr

/-- Nothing is subtracted. -/
def SubFree : Expr → Prop
  | number _ => True
  | die _ => True
  | binary operator left right => operator ≠ .sub ∧ left.SubFree ∧ right.SubFree

def results (expr : Expr) : Set ℤ :=
  {value | (expr.roll.scripts value).Nonempty}

/-- How many scripts lead to each result. -/
noncomputable def ways (expr : Expr) : Law ℚ :=
  expr.law fun _ => 1

/-- The chance of each result when every draw is uniform and independent of all others. -/
noncomputable def chances (expr : Expr) : Law ℚ :=
  expr.law fun faces => (faces : ℚ)⁻¹

/-- Every weight is the exact chance of its integer, times the total weight. -/
def Exact (expr : Expr) : Prop :=
  ∃ odds, expr.odds = .ok odds ∧
    ∀ value, (odds.weightAt value : ℚ) / odds.totalWeight = expr.chances value

variable {expr left right count : Expr} {shape : Die} {operator : Operator}

theorem SubFree.subtractsPoints (hfree : expr.SubFree) : expr.SubtractsPoints := by
  induction expr with
  | number value => trivial
  | die shape => trivial
  | binary operator left right ihLeft ihRight =>
      exact ⟨ihLeft hfree.2.1, ihRight hfree.2.2, fun hsub => absurd hsub hfree.1⟩

/-! ### Ways and chances of a tree -/

theorem faces_pos {faces : ℤ} (hfaces : 1 ≤ faces) : 0 < (faces : ℚ) :=
  Int.cast_pos.2 (zero_lt_one.trans_le hfaces)

theorem even_pos (faces : ℤ) (hfaces : 1 ≤ faces) : 0 < (faces : ℚ)⁻¹ :=
  inv_pos.2 (faces_pos hfaces)

theorem ways_ne_zero_iff {value : ℤ} : expr.ways value ≠ 0 ↔ value ∈ expr.results :=
  Draws.law_ne_zero_iff (fun _ _ => one_pos) expr.roll value

theorem chances_ne_zero_iff {value : ℤ} : expr.chances value ≠ 0 ↔ value ∈ expr.results :=
  Draws.law_ne_zero_iff even_pos expr.roll value

theorem ways_nonneg (expr : Expr) : 0 ≤ expr.ways :=
  Draws.law_nonneg (fun _ _ => one_pos) expr.roll

theorem chances_nonneg (expr : Expr) : 0 ≤ expr.chances :=
  Draws.law_nonneg even_pos expr.roll

theorem chances_die_apply (shape : Die) (value : ℤ) :
    (die shape).chances value =
      if 1 ≤ value ∧ value ≤ shape.faces then (shape.faces : ℚ)⁻¹ else 0 := by
  rw [chances, law_die, ofDie_apply]

theorem total_chances_die (hfaces : 1 ≤ shape.faces) : total (die shape).chances = 1 := by
  have hcast : ((shape.faces.toNat : ℤ) : ℚ) = shape.faces := by
    rw [Int.toNat_of_nonneg (zero_le_one.trans hfaces)]
  rw [Int.cast_natCast] at hcast
  rw [chances, law_die, total_ofDie, hcast, inv_mul_cancel₀ (faces_pos hfaces).ne']

/-- Each side of a die is one way, and there are as many sides as faces. -/
theorem ways_die (hfaces : 1 ≤ shape.faces) :
    (die shape).ways = (shape.faces : ℚ) • (die shape).chances := by
  ext value
  rw [Finsupp.smul_apply, chances_die_apply, smul_eq_mul, mul_ite, mul_zero,
    mul_inv_cancel₀ (faces_pos hfaces).ne', ways, law_die, ofDie_apply]

theorem hasTop_die (hfaces : 1 ≤ shape.faces) : HasTop (die shape).chances shape.faces := by
  constructor
  · exact (die shape).chances_nonneg
  · intro value hvalue
    rw [chances_die_apply] at hvalue
    exact (ite_ne_right_iff.1 hvalue).1.2
  · rw [chances_die_apply, if_pos ⟨hfaces, le_rfl⟩]
    exact even_pos shape.faces hfaces

theorem ways_pool (count : Expr) (shape : Die) :
    (binary .mul count (die shape)).ways = pool (die shape).ways count.ways :=
  law_pool _ count shape

theorem chances_pool (count : Expr) (shape : Die) :
    (binary .mul count (die shape)).chances = pool (die shape).chances count.chances :=
  law_pool _ count shape

theorem ways_binary (hplain : ∀ shape, operator = .mul → right = .die shape → False) :
    (binary operator left right).ways = combine operator.apply left.ways right.ways :=
  law_binary _ hplain

theorem chances_binary (hplain : ∀ shape, operator = .mul → right = .die shape → False) :
    (binary operator left right).chances = combine operator.apply left.chances right.chances :=
  law_binary _ hplain

theorem total_chances (hfaced : expr.Faced) : total expr.chances = 1 := by
  induction expr using poolInduction with
  | number value => exact total_single value 1
  | die shape => exact total_chances_die hfaced
  | pool count shape ih =>
      rw [chances_pool, total_pool (total_chances_die hfaced.2), ih hfaced.1]
  | plain operator left right hplain ihLeft ihRight =>
      rw [chances_binary hplain, total_combine, ihLeft hfaced.1, ihRight hfaced.2, one_mul]

theorem exists_mem_results (hfaced : expr.Faced) : ∃ value, value ∈ expr.results := by
  by_contra hnone
  have hzero : expr.chances = 0 := by
    ext value
    exact of_not_not fun hne => hnone ⟨value, chances_ne_zero_iff.1 hne⟩
  have htotal := total_chances hfaced
  rw [hzero, map_zero] at htotal
  exact zero_ne_one htotal

theorem total_ways_pos (hfaced : expr.Faced) : 0 < total expr.ways := by
  obtain ⟨value, hvalue⟩ := exists_mem_results hfaced
  have hways : 0 < expr.ways value :=
    (expr.ways_nonneg value).lt_of_ne' (ways_ne_zero_iff.2 hvalue)
  exact hways.trans_le (apply_le_total expr.ways_nonneg value)

/-- Weights give the exact chances just when ways and chances are proportional. -/
theorem exact_iff_proportional (hfaced : expr.Faced) (hpoints : expr.SubtractsPoints) :
    expr.Exact ↔ Proportional expr.ways expr.chances := by
  obtain ⟨odds, hodds, -⟩ := exists_odds hfaced
  have hweight (value : ℤ) : (odds.weightAt value : ℚ) = expr.ways value := by
    rw [← Distribution.law_apply, law_odds hfaced hpoints hodds]
    exact Draws.cast_law expr.roll value
  have htotal : (odds.totalWeight : ℚ) = total expr.ways := by
    rw [← Distribution.total_law]
    apply cast_total
    intro value
    rw [Distribution.law_apply, hweight]
  have hne : total expr.ways ≠ 0 := (total_ways_pos hfaced).ne'
  constructor
  · rintro ⟨other, hother, hexact⟩
    obtain rfl := Except.ok.inj (hodds.symm.trans hother)
    refine ⟨total expr.ways, ?_⟩
    ext value
    rw [Finsupp.smul_apply, ← hexact value, hweight, htotal, smul_eq_mul, mul_div_cancel₀ _ hne]
  · rintro ⟨factor, hfactor⟩
    refine ⟨odds, hodds, ?_⟩
    intro value
    rw [hweight, htotal, hfactor, map_smul, total_chances hfaced, Finsupp.smul_apply, smul_eq_mul,
      smul_eq_mul, mul_one]
    apply mul_div_cancel_left₀
    rintro rfl
    rw [hfactor, zero_smul, map_zero] at hne
    exact hne rfl

end Expr

end DiceOdds
