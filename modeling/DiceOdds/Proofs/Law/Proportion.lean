import DiceOdds.Proofs.Law.Top

/-!
# Ways and chances

One law counts the ways to reach a result and another one tells its chance.  Dividing by the number
of all ways gives the chances if and only if the two laws are proportional.  The ways to reach the
greatest result take the most draws, so that no other result has more ways for its chance: the laws
are proportional just when all results have as many.
-/

namespace DiceOdds.Law

variable {law die ways chances ways' chances' : Law ℚ} {top top' : ℤ} {ratio ratio' factor : ℚ}

/-! ### Totals -/

theorem apply_le_total (hlaw : 0 ≤ law) (value : ℤ) : law value ≤ total law := by
  have hvalue := total_nonneg (sub_nonneg.2 (single_le hlaw value))
  rwa [map_sub, sub_nonneg, total_single] at hvalue

theorem eq_of_le_of_total_eq (hle : ways ≤ chances) (htotal : total ways = total chances) :
    ways = chances := by
  apply le_antisymm hle
  intro value
  have hdifference := apply_le_total (sub_nonneg.2 hle) value
  rw [map_sub, htotal, sub_self] at hdifference
  exact sub_nonpos.1 hdifference

/-- A law with a single result. -/
theorem eq_single_of_forall {value : ℤ} (hvalue : ∀ other, law other ≠ 0 → other = value) :
    law = Finsupp.single value (total law) := by
  have hlaw : law = Finsupp.single value (law value) := by
    ext other
    rw [Finsupp.single_apply]
    split
    · next hsame => rw [hsame]
    · next hother => exact not_not.1 fun hne => hother (hvalue other hne).symm
  rw [hlaw, total_single]

/-! ### Proportional laws -/

def Proportional (ways chances : Law ℚ) : Prop :=
  ∃ factor : ℚ, ways = factor • chances

theorem Proportional.combine (operation : ℤ → ℤ → ℤ) (hleft : Proportional ways chances)
    (hright : Proportional ways' chances') :
    Proportional (combine operation ways ways') (combine operation chances chances') := by
  obtain ⟨factor, rfl⟩ := hleft
  obtain ⟨factor', rfl⟩ := hright
  exact ⟨factor * factor', by rw [map_smul, map_smul, LinearMap.smul_apply, smul_smul, mul_comm]⟩

/-- A product with zero is zero, in all ways and with certainty. -/
theorem combine_mul_of_zero (hzero : ∀ value, ways value ≠ 0 → value = 0) :
    Law.combine (· * ·) ways ways' = Finsupp.single 0 (total ways * total ways') := by
  have hproduct (value : ℤ) (hvalue : Law.combine (· * ·) ways ways' value ≠ 0) : value = 0 := by
    obtain ⟨left, right, hleft, -, rfl⟩ := exists_of_combine_ne_zero hvalue
    rw [hzero left hleft, zero_mul]
  rw [eq_single_of_forall hproduct, total_combine]

/-- A pool whose count is fixed. -/
theorem pool_of_fixed {count : ℕ} (hcount : ∀ value, ways value ≠ 0 → value.toNat = count) :
    pool die ways = total ways • power die count := by
  rw [pool, total, Finsupp.linearCombination_apply, Finsupp.linearCombination_apply, Finsupp.sum,
    Finsupp.sum, Finset.sum_smul]
  apply Finset.sum_congr rfl
  intro value hvalue
  rw [hcount value (Finsupp.mem_support_iff.1 hvalue), smul_eq_mul, mul_one]

/-! ### The ratio at the top -/

/-- No result has more than `ratio` ways for its chance, and the greatest result has as many. -/
structure Dominated (ways chances : Law ℚ) (top : ℤ) (ratio : ℚ) : Prop where
  ways_nonneg : 0 ≤ ways
  hasTop : HasTop chances top
  total_chances : total chances = 1
  le : ways ≤ ratio • chances
  at_top : ways top = ratio * chances top
  ratio_pos : 0 < ratio

theorem Dominated.apply_le (hdominated : Dominated ways chances top ratio) (value : ℤ) :
    ways value ≤ ratio * chances value :=
  hdominated.le value

theorem Dominated.chances_ne_zero (hdominated : Dominated ways chances top ratio) {value : ℤ}
    (hvalue : ways value ≠ 0) : chances value ≠ 0 := by
  intro hchance
  have hle := hdominated.apply_le value
  rw [hchance, mul_zero] at hle
  exact hvalue (le_antisymm hle (hdominated.ways_nonneg value))

theorem Dominated.le_top (hdominated : Dominated ways chances top ratio) (value : ℤ)
    (hvalue : ways value ≠ 0) : value ≤ top :=
  hdominated.hasTop.le_top value (hdominated.chances_ne_zero hvalue)

theorem Dominated.total_le (hdominated : Dominated ways chances top ratio) :
    total ways ≤ ratio := by
  have htotal := total_nonneg (sub_nonneg.2 hdominated.le)
  rwa [map_sub, map_smul, hdominated.total_chances, smul_eq_mul, mul_one, sub_nonneg] at htotal

theorem Dominated.total_pos (hdominated : Dominated ways chances top ratio) : 0 < total ways := by
  have htop : 0 < ways top := by
    rw [hdominated.at_top]
    exact mul_pos hdominated.ratio_pos hdominated.hasTop.top_pos
  exact htop.trans_le (apply_le_total hdominated.ways_nonneg top)

/-- Proportional laws have the ratio of the greatest result throughout. -/
theorem Dominated.eq_of_proportional (hdominated : Dominated ways chances top ratio)
    (hproportional : Proportional ways chances) : ways = ratio • chances := by
  obtain ⟨factor, rfl⟩ := hproportional
  have htop := hdominated.at_top
  rw [Finsupp.smul_apply, smul_eq_mul] at htop
  rw [mul_right_cancel₀ hdominated.hasTop.top_pos.ne' htop]

theorem Dominated.proportional_iff (hdominated : Dominated ways chances top ratio) :
    Proportional ways chances ↔ total ways = ratio := by
  constructor
  · intro hproportional
    rw [hdominated.eq_of_proportional hproportional, map_smul, hdominated.total_chances,
      smul_eq_mul, mul_one]
  · intro htotal
    refine ⟨ratio, eq_of_le_of_total_eq hdominated.le ?_⟩
    rw [map_smul, hdominated.total_chances, smul_eq_mul, mul_one, htotal]

theorem Dominated.of_proportional (hproportional : Proportional ways chances)
    (hways : 0 < total ways) (hchances : 0 ≤ chances) (htotal : total chances = 1) :
    ∃ top, Dominated ways chances top (total ways) := by
  obtain ⟨factor, rfl⟩ := hproportional
  have hfactor : total (factor • chances) = factor := by
    rw [map_smul, htotal, smul_eq_mul, mul_one]
  rw [hfactor] at hways ⊢
  obtain ⟨top, htop⟩ := exists_hasTop hchances (by rw [htotal]; exact one_ne_zero)
  exact ⟨top, smul_nonneg hways.le hchances, htop, htotal, le_rfl, rfl, hways⟩

theorem Dominated.combine_le (operation : ℤ → ℤ → ℤ)
    (hleft : Dominated ways chances top ratio) (hright : Dominated ways' chances' top' ratio') :
    Law.combine operation ways ways' ≤
      (ratio * ratio') • Law.combine operation chances chances' := by
  have hmono := combine_mono operation hleft.le hright.le
    (smul_nonneg hleft.ratio_pos.le hleft.hasTop.nonneg) hright.ways_nonneg
  rwa [map_smul, map_smul, LinearMap.smul_apply, smul_smul, mul_comm] at hmono

theorem Dominated.add (hleft : Dominated ways chances top ratio)
    (hright : Dominated ways' chances' top' ratio') :
    Dominated (Law.combine (· + ·) ways ways') (Law.combine (· + ·) chances chances')
      (top + top') (ratio * ratio') where
  ways_nonneg := combine_nonneg _ hleft.ways_nonneg hright.ways_nonneg
  hasTop := hleft.hasTop.add hright.hasTop
  total_chances := by rw [total_combine, hleft.total_chances, hright.total_chances, one_mul]
  le := hleft.combine_le (· + ·) hright
  at_top := by
    rw [combine_add_apply_top hleft.le_top hright.le_top,
      combine_add_apply_top hleft.hasTop.le_top hright.hasTop.le_top, hleft.at_top, hright.at_top,
      mul_mul_mul_comm]
  ratio_pos := mul_pos hleft.ratio_pos hright.ratio_pos

theorem Dominated.mul (hleft : Dominated ways chances top ratio)
    (hright : Dominated ways' chances' top' ratio') (htop : 0 < top) (htop' : 0 < top')
    (hnonneg : ∀ value, chances value ≠ 0 → 0 ≤ value)
    (hnonneg' : ∀ value, chances' value ≠ 0 → 0 ≤ value) :
    Dominated (Law.combine (· * ·) ways ways') (Law.combine (· * ·) chances chances')
      (top * top') (ratio * ratio') where
  ways_nonneg := combine_nonneg _ hleft.ways_nonneg hright.ways_nonneg
  hasTop := hleft.hasTop.mul hright.hasTop htop htop' hnonneg hnonneg'
  total_chances := by rw [total_combine, hleft.total_chances, hright.total_chances, one_mul]
  le := hleft.combine_le (· * ·) hright
  at_top := by
    rw [combine_mul_apply_top htop htop', combine_mul_apply_top htop htop', hleft.at_top,
      hright.at_top, mul_mul_mul_comm]
    · exact fun value hvalue => ⟨hnonneg value hvalue, hleft.hasTop.le_top value hvalue⟩
    · exact fun value hvalue => ⟨hnonneg' value hvalue, hright.hasTop.le_top value hvalue⟩
    · exact fun value hvalue =>
        ⟨hnonneg value (hleft.chances_ne_zero hvalue), hleft.le_top value hvalue⟩
    · exact fun value hvalue =>
        ⟨hnonneg' value (hright.chances_ne_zero hvalue), hright.le_top value hvalue⟩
  ratio_pos := mul_pos hleft.ratio_pos hright.ratio_pos

/-- A combination whose ratio at the top is the product of both is proportional only if both sides
are. -/
theorem Dominated.proportional_of_combine {operation : ℤ → ℤ → ℤ}
    (hleft : Dominated ways chances top ratio) (hright : Dominated ways' chances' top' ratio')
    {product : ℤ}
    (hcombine : Dominated (Law.combine operation ways ways')
      (Law.combine operation chances chances') product (ratio * ratio'))
    (hproportional : Proportional (Law.combine operation ways ways')
      (Law.combine operation chances chances')) :
    Proportional ways chances ∧ Proportional ways' chances' := by
  have htotal := hcombine.proportional_iff.1 hproportional
  rw [total_combine] at htotal
  rw [hleft.proportional_iff, hright.proportional_iff]
  exact (mul_eq_mul_iff_eq_and_eq_of_pos' hleft.total_le hright.total_le hleft.ratio_pos
    hright.total_pos).1 htotal

/-! ### Pools -/

/-- Every die that a count calls for multiplies its weight by `factor`. -/
noncomputable def inflate (factor : ℚ) : Law ℚ →ₗ[ℚ] Law ℚ :=
  Finsupp.linearCombination ℚ fun count => Finsupp.single count (factor ^ count.toNat)

theorem inflate_single (factor : ℚ) (count : ℤ) (weight : ℚ) :
    inflate factor (Finsupp.single count weight) =
      Finsupp.single count (weight * factor ^ count.toNat) := by
  rw [inflate, Finsupp.linearCombination_single, Finsupp.smul_single, smul_eq_mul]

theorem inflate_apply (factor : ℚ) (counts : Law ℚ) (count : ℤ) :
    inflate factor counts count = counts count * factor ^ count.toNat := by
  induction counts using Finsupp.induction_linear with
  | zero => rw [map_zero, Finsupp.zero_apply, zero_mul]
  | add first second ihFirst ihSecond =>
      rw [map_add, Finsupp.add_apply, ihFirst, ihSecond, Finsupp.add_apply, add_mul]
  | single value weight =>
      rw [inflate_single, Finsupp.single_apply, Finsupp.single_apply, ite_mul, zero_mul]
      split
      · next hsame => rw [hsame]
      · rfl

theorem pool_smul (factor : ℚ) (die counts : Law ℚ) :
    pool (factor • die) counts = pool die (inflate factor counts) := by
  induction counts using Finsupp.induction_linear with
  | zero => rw [map_zero, map_zero, map_zero]
  | add first second ihFirst ihSecond => rw [map_add, map_add, map_add, ihFirst, ihSecond]
  | single count weight =>
      rw [inflate_single, pool_single, pool_single, power_smul, smul_smul]

theorem total_pool (hdie : total die = 1) (counts : Law ℚ) :
    total (pool die counts) = total counts := by
  induction counts using Finsupp.induction_linear with
  | zero => rw [map_zero, map_zero]
  | add first second ihFirst ihSecond => rw [map_add, map_add, map_add, ihFirst, ihSecond]
  | single count weight =>
      rw [pool_single, map_smul, total_power, hdie, one_pow, total_single, smul_eq_mul, mul_one]

theorem Dominated.mul_pow_le (hdominated : Dominated ways chances top ratio) (hfactor : 1 ≤ factor)
    (count : ℤ) : ways count * factor ^ count.toNat ≤ ways count * factor ^ top.toNat := by
  by_cases hcount : ways count = 0
  · rw [hcount, zero_mul, zero_mul]
  · have hle := hdominated.le_top count hcount
    exact mul_le_mul_of_nonneg_left (pow_le_pow_right₀ hfactor (Int.toNat_le_toNat hle))
      (hdominated.ways_nonneg count)

theorem Dominated.inflate (hdominated : Dominated ways chances top ratio) (hfactor : 1 ≤ factor) :
    Dominated (inflate factor ways) chances top (ratio * factor ^ top.toNat) := by
  have hnonneg : 0 ≤ factor := zero_le_one.trans hfactor
  have hpositive : 0 < factor ^ top.toNat := pow_pos (zero_lt_one.trans_le hfactor) _
  constructor
  · intro count
    rw [inflate_apply]
    exact mul_nonneg (hdominated.ways_nonneg count) (pow_nonneg hnonneg _)
  · exact hdominated.hasTop
  · exact hdominated.total_chances
  · intro count
    rw [inflate_apply, Finsupp.smul_apply, smul_eq_mul]
    calc ways count * factor ^ count.toNat
        ≤ ways count * factor ^ top.toNat := hdominated.mul_pow_le hfactor count
      _ ≤ ratio * chances count * factor ^ top.toNat :=
          mul_le_mul_of_nonneg_right (hdominated.apply_le count) hpositive.le
      _ = ratio * factor ^ top.toNat * chances count := mul_right_comm _ _ _
  · rw [inflate_apply, hdominated.at_top, mul_right_comm]
  · exact mul_pos hdominated.ratio_pos hpositive

theorem Dominated.pool (hdominated : Dominated ways chances top ratio) (htop : 0 < top)
    (hdie : HasTop die top') (hfaces : 0 < top') (htotal : total die = 1) :
    Dominated (pool die ways) (pool die chances) (top * top') ratio where
  ways_nonneg := pool_nonneg hdie.nonneg hdominated.ways_nonneg
  hasTop := hdie.pool hfaces hdominated.hasTop htop
  total_chances := by rw [total_pool htotal, hdominated.total_chances]
  le := by
    rw [← map_smul, ← sub_nonneg, ← map_sub]
    exact pool_nonneg hdie.nonneg (sub_nonneg.2 hdominated.le)
  at_top := by
    rw [pool_apply_top hdie hfaces hdominated.le_top htop,
      pool_apply_top hdie hfaces hdominated.hasTop.le_top htop, hdominated.at_top, mul_assoc]
  ratio_pos := hdominated.ratio_pos

/-- A pool whose dice have `factor` ways for each chance is proportional only if its count is and
all counts call for as many dice, unless dice make no difference. -/
theorem Dominated.proportional_of_pool (hdominated : Dominated ways chances top ratio)
    (htop : 0 < top) (hdie : HasTop die top') (hfaces : 0 < top') (htotal : total die = 1)
    (hfactor : 1 ≤ factor)
    (hproportional : Proportional (Law.pool (factor • die) ways) (Law.pool die chances)) :
    Proportional ways chances ∧
      ∀ count, ways count ≠ 0 → factor ^ count.toNat = factor ^ top.toNat := by
  have hinflated := hdominated.inflate hfactor
  have hpool := hinflated.pool htop hdie hfaces htotal
  rw [pool_smul, hpool.proportional_iff, total_pool htotal, ← hinflated.proportional_iff]
    at hproportional
  have hpositive : 0 < factor ^ top.toNat := pow_pos (zero_lt_one.trans_le hfactor) _
  -- the ways of a count are squeezed between those it has and those it would have at the top
  have hcount (count : ℤ) :
      ways count * factor ^ count.toNat = ways count * factor ^ top.toNat ∧
        ways count * factor ^ top.toNat = ratio * chances count * factor ^ top.toNat := by
    have hequal := DFunLike.congr_fun (hinflated.eq_of_proportional hproportional) count
    rw [inflate_apply, Finsupp.smul_apply, smul_eq_mul, mul_right_comm] at hequal
    have hfirst := hdominated.mul_pow_le hfactor count
    have hsecond := mul_le_mul_of_nonneg_right (hdominated.apply_le count) hpositive.le
    exact ⟨le_antisymm hfirst (hequal ▸ hsecond), le_antisymm hsecond (hequal ▸ hfirst)⟩
  constructor
  · refine ⟨ratio, ?_⟩
    ext count
    exact mul_right_cancel₀ hpositive.ne' (hcount count).2
  · intro count hne
    exact mul_left_cancel₀ hne (hcount count).1

end DiceOdds.Law
