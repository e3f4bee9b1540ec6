import Mathlib

/-!
# Laws

A law weighs finitely many integers: with counts if it counts the ways to reach a result, and with
fractions if it tells the chances.  Two independent results are combined by weighing every pair of
them, and a pool of dice is a mixture of the powers of the law of one die.
-/

namespace DiceOdds

abbrev Law (R : Type*) [Zero R] := ℤ →₀ R

namespace Law

variable {R : Type*} [CommSemiring R]

/-- The law of `operation` on two independent results. -/
noncomputable def combine (operation : ℤ → ℤ → ℤ) : Law R →ₗ[R] Law R →ₗ[R] Law R :=
  Finsupp.linearCombination R fun value => Finsupp.lmapDomain R R (operation value)

/-- The law of a single die, each face of which counts for `share faces`. -/
noncomputable def ofDie (share : ℤ → R) (faces : ℤ) : Law R :=
  share faces • ∑ value ∈ Finset.Icc 1 faces, Finsupp.single value 1

/-- The law of the sum of so many independent results. -/
noncomputable def power (law : Law R) : ℕ → Law R
  | 0 => Finsupp.single 0 1
  | count + 1 => combine (· + ·) law (power law count)

/-- The law of a pool of dice, linear in the law of their number.  A number below zero rolls no
dice. -/
noncomputable def pool (die : Law R) : Law R →ₗ[R] Law R :=
  Finsupp.linearCombination R fun count => power die count.toNat

noncomputable def total : Law R →ₗ[R] R :=
  Finsupp.linearCombination R fun _ => 1

theorem ofDie_apply (share : ℤ → R) (faces value : ℤ) :
    ofDie share faces value = if 1 ≤ value ∧ value ≤ faces then share faces else 0 := by
  rw [ofDie, Finsupp.smul_apply, Finsupp.finsetSum_apply]
  simp only [Finsupp.single_apply, Finset.sum_ite_eq', Finset.mem_Icc, smul_eq_mul, mul_ite,
    mul_one, mul_zero]

/-! ### Two results -/

theorem combine_single_left (operation : ℤ → ℤ → ℤ) (value : ℤ) (weight : R) (right : Law R) :
    combine operation (Finsupp.single value weight) right =
      weight • Finsupp.mapDomain (operation value) right := by
  rw [combine, Finsupp.linearCombination_single]
  rfl

@[simp]
theorem combine_single_single (operation : ℤ → ℤ → ℤ) (leftValue rightValue : ℤ)
    (leftWeight rightWeight : R) :
    combine operation (Finsupp.single leftValue leftWeight)
        (Finsupp.single rightValue rightWeight) =
      Finsupp.single (operation leftValue rightValue) (leftWeight * rightWeight) := by
  rw [combine_single_left, Finsupp.mapDomain_single, Finsupp.smul_single, smul_eq_mul]

theorem combine_single_right (operation : ℤ → ℤ → ℤ) (left : Law R) (value : ℤ) (weight : R) :
    combine operation left (Finsupp.single value weight) =
      weight • Finsupp.mapDomain (operation · value) left := by
  induction left using Finsupp.induction_linear with
  | zero => rw [LinearMap.map_zero₂, Finsupp.mapDomain_zero, smul_zero]
  | add first second ihFirst ihSecond =>
      rw [LinearMap.map_add₂, ihFirst, ihSecond, Finsupp.mapDomain_add, smul_add]
  | single leftValue leftWeight =>
      rw [combine_single_single, Finsupp.mapDomain_single, Finsupp.smul_single, smul_eq_mul,
        mul_comm]

theorem combine_single_ofDie (share : ℤ → R) (sum faces : ℤ) :
    combine (· + ·) (Finsupp.single sum 1) (ofDie share faces) =
      share faces • ∑ value ∈ Finset.Icc 1 faces, Finsupp.single (sum + value) 1 := by
  simp only [ofDie, map_smul, map_sum, combine_single_single, one_mul]

theorem combine_comm {operation : ℤ → ℤ → ℤ}
    (hcomm : ∀ left right, operation left right = operation right left) (left right : Law R) :
    combine operation left right = combine operation right left := by
  induction left using Finsupp.induction_linear with
  | zero => rw [LinearMap.map_zero₂, map_zero]
  | add first second ihFirst ihSecond => rw [LinearMap.map_add₂, map_add, ihFirst, ihSecond]
  | single leftValue leftWeight =>
      induction right using Finsupp.induction_linear with
      | zero => rw [LinearMap.map_zero₂, map_zero]
      | add first second ihFirst ihSecond => rw [LinearMap.map_add₂, map_add, ihFirst, ihSecond]
      | single rightValue rightWeight =>
          rw [combine_single_single, combine_single_single, hcomm, mul_comm]

theorem combine_assoc {operation : ℤ → ℤ → ℤ}
    (hassoc : ∀ first second third,
      operation (operation first second) third = operation first (operation second third))
    (first second third : Law R) :
    combine operation (combine operation first second) third =
      combine operation first (combine operation second third) := by
  induction first using Finsupp.induction_linear with
  | zero => simp only [map_zero, LinearMap.zero_apply]
  | add left right ihLeft ihRight => simp only [map_add, LinearMap.add_apply, ihLeft, ihRight]
  | single firstValue firstWeight =>
      induction second using Finsupp.induction_linear with
      | zero => simp only [map_zero, LinearMap.zero_apply]
      | add left right ihLeft ihRight => simp only [map_add, LinearMap.add_apply, ihLeft, ihRight]
      | single secondValue secondWeight =>
          induction third using Finsupp.induction_linear with
          | zero => simp only [map_zero]
          | add left right ihLeft ihRight => simp only [map_add, ihLeft, ihRight]
          | single thirdValue thirdWeight =>
              simp only [combine_single_single, hassoc, mul_assoc]

theorem mapDomain_combine (move : ℤ → ℤ) (operation : ℤ → ℤ → ℤ) (left right : Law R) :
    Finsupp.mapDomain move (combine operation left right) =
      combine (fun leftValue rightValue => move (operation leftValue rightValue)) left right := by
  induction left using Finsupp.induction_linear with
  | zero => simp only [LinearMap.map_zero₂, Finsupp.mapDomain_zero]
  | add first second ihFirst ihSecond =>
      simp only [LinearMap.map_add₂, Finsupp.mapDomain_add, ihFirst, ihSecond]
  | single value weight =>
      rw [combine_single_left, combine_single_left, Finsupp.mapDomain_smul,
        ← Finsupp.mapDomain_comp]
      rfl

theorem combine_mapDomain_right (operation : ℤ → ℤ → ℤ) (move : ℤ → ℤ) (left right : Law R) :
    combine operation left (Finsupp.mapDomain move right) =
      combine (fun leftValue rightValue => operation leftValue (move rightValue)) left right := by
  induction left using Finsupp.induction_linear with
  | zero => simp only [LinearMap.map_zero₂]
  | add first second ihFirst ihSecond => simp only [LinearMap.map_add₂, ihFirst, ihSecond]
  | single value weight =>
      rw [combine_single_left, combine_single_left, ← Finsupp.mapDomain_comp]
      rfl

/-- Every pair of results weighs in where it leads. -/
theorem combine_apply (operation : ℤ → ℤ → ℤ) (left right : Law R) (result : ℤ) :
    combine operation left right result =
      ∑ leftValue ∈ left.support, ∑ rightValue ∈ right.support,
        if operation leftValue rightValue = result then left leftValue * right rightValue
        else 0 := by
  rw [combine, Finsupp.linearCombination_apply, LinearMap.finsupp_sum_apply, Finsupp.sum_apply]
  apply Finset.sum_congr rfl
  intro leftValue _
  change left leftValue * Finsupp.mapDomain (operation leftValue) right result = _
  rw [Finsupp.mapDomain, Finsupp.sum_apply, Finsupp.sum, Finset.mul_sum]
  apply Finset.sum_congr rfl
  intro rightValue _
  rw [Finsupp.single_apply, mul_ite, mul_zero]

/-- Only pairs of results that both weigh something tell operations apart. -/
theorem combine_congr {operation other : ℤ → ℤ → ℤ} {left right : Law R}
    (hsame : ∀ leftValue rightValue, left leftValue ≠ 0 → right rightValue ≠ 0 →
      operation leftValue rightValue = other leftValue rightValue) :
    combine operation left right = combine other left right := by
  ext result
  rw [combine_apply, combine_apply]
  apply Finset.sum_congr rfl
  intro leftValue hleft
  apply Finset.sum_congr rfl
  intro rightValue hright
  rw [hsame leftValue rightValue (Finsupp.mem_support_iff.1 hleft)
    (Finsupp.mem_support_iff.1 hright)]

/-- A result of two laws comes from a result of each. -/
theorem exists_of_combine_ne_zero {operation : ℤ → ℤ → ℤ} {left right : Law R} {result : ℤ}
    (hresult : combine operation left right result ≠ 0) :
    ∃ leftValue rightValue,
      left leftValue ≠ 0 ∧ right rightValue ≠ 0 ∧ operation leftValue rightValue = result := by
  rw [combine_apply] at hresult
  obtain ⟨leftValue, hleft, hresult⟩ := Finset.exists_ne_zero_of_sum_ne_zero hresult
  obtain ⟨rightValue, hright, hresult⟩ := Finset.exists_ne_zero_of_sum_ne_zero hresult
  exact ⟨leftValue, rightValue, Finsupp.mem_support_iff.1 hleft, Finsupp.mem_support_iff.1 hright,
    of_not_not fun hne => hresult (if_neg hne)⟩

/-- A result that comes from one pair only. -/
theorem combine_apply_of_unique {operation : ℤ → ℤ → ℤ} {left right : Law R}
    {leftValue rightValue : ℤ}
    (hunique : ∀ otherLeft otherRight, left otherLeft ≠ 0 → right otherRight ≠ 0 →
      operation otherLeft otherRight = operation leftValue rightValue →
        otherLeft = leftValue ∧ otherRight = rightValue) :
    combine operation left right (operation leftValue rightValue) =
      left leftValue * right rightValue := by
  have hpair {otherLeft otherRight : ℤ}
      (hne : ¬ (otherLeft = leftValue ∧ otherRight = rightValue)) :
      (if operation otherLeft otherRight = operation leftValue rightValue then
        left otherLeft * right otherRight else 0) = 0 := by
    split
    · next hsame =>
        by_contra hweight
        exact hne (hunique otherLeft otherRight (left_ne_zero_of_mul hweight)
          (right_ne_zero_of_mul hweight) hsame)
    · rfl
  rw [combine_apply, Finset.sum_eq_single leftValue, Finset.sum_eq_single rightValue, if_pos rfl]
  · intro otherRight _ hne
    exact hpair fun hsame => hne hsame.2
  · intro hright
    rw [if_pos rfl, Finsupp.notMem_support_iff.1 hright, mul_zero]
  · intro otherLeft _ hne
    exact Finset.sum_eq_zero fun otherRight _ => hpair fun hsame => hne hsame.1
  · intro hleft
    apply Finset.sum_eq_zero
    intro otherRight _
    rw [Finsupp.notMem_support_iff.1 hleft, zero_mul, ite_self]

@[simp]
theorem total_single (value : ℤ) (weight : R) : total (Finsupp.single value weight) = weight := by
  rw [total, Finsupp.linearCombination_single, smul_eq_mul, mul_one]

theorem total_ofDie (share : ℤ → R) (faces : ℤ) :
    total (ofDie share faces) = share faces * faces.toNat := by
  have hcard : (Finset.Icc 1 faces).card = faces.toNat := by
    rw [Int.card_Icc, add_sub_cancel_right]
  simp only [ofDie, map_smul, map_sum, total_single, Finset.sum_const, hcard, nsmul_one,
    smul_eq_mul]

theorem total_combine (operation : ℤ → ℤ → ℤ) (left right : Law R) :
    total (combine operation left right) = total left * total right := by
  induction left using Finsupp.induction_linear with
  | zero => simp only [map_zero, LinearMap.zero_apply, zero_mul]
  | add first second ihFirst ihSecond =>
      simp only [map_add, LinearMap.add_apply, ihFirst, ihSecond, add_mul]
  | single leftValue leftWeight =>
      induction right using Finsupp.induction_linear with
      | zero => simp only [map_zero, mul_zero]
      | add first second ihFirst ihSecond => simp only [map_add, ihFirst, ihSecond, mul_add]
      | single rightValue rightWeight =>
          rw [combine_single_single, total_single, total_single, total_single]

/-- Whole weights add up to the same total as fractions. -/
theorem cast_total {F : Type*} [CommRing F] {whole : Law ℤ} {law : Law F}
    (hlaw : ∀ value, (whole value : F) = law value) : ((total whole : ℤ) : F) = total law := by
  have hmap : law = Finsupp.mapRange (fun weight : ℤ => (weight : F)) Int.cast_zero whole := by
    ext value
    rw [Finsupp.mapRange_apply, hlaw]
  rw [hmap, total, total, Finsupp.linearCombination_apply, Finsupp.linearCombination_apply,
    Finsupp.sum_mapRange_index fun value => zero_smul F 1, Finsupp.sum, Int.cast_sum]
  simp only [smul_eq_mul, mul_one]
  rfl

/-! ### Powers -/

theorem combine_add_single_zero (law : Law R) :
    combine (· + ·) (Finsupp.single 0 1) law = law := by
  rw [combine_single_left, one_smul]
  simp only [zero_add]
  exact Finsupp.mapDomain_id

theorem pool_single (die : Law R) (count : ℤ) (weight : R) :
    pool die (Finsupp.single count weight) = weight • power die count.toNat := by
  rw [pool, Finsupp.linearCombination_single]

/-- A result of a pool comes from as many dice as one of the counts calls for. -/
theorem exists_of_pool_ne_zero {die counts : Law R} {result : ℤ}
    (hresult : pool die counts result ≠ 0) :
    ∃ count, counts count ≠ 0 ∧ power die count.toNat result ≠ 0 := by
  rw [pool, Finsupp.linearCombination_apply, Finsupp.sum_apply] at hresult
  obtain ⟨count, hcount, hresult⟩ := Finset.exists_ne_zero_of_sum_ne_zero hresult
  exact ⟨count, Finsupp.mem_support_iff.1 hcount, right_ne_zero_of_mul hresult⟩

theorem power_add (law : Law R) (first second : ℕ) :
    power law (first + second) = combine (· + ·) (power law first) (power law second) := by
  induction first with
  | zero => rw [Nat.zero_add, power, combine_add_single_zero]
  | succ first ih => rw [Nat.succ_add, power, ih, power, combine_assoc add_assoc]

/-- A pool of two counts, neither of which is negative, is the sum of their pools. -/
theorem pool_combine_add (die : Law R) {left right : Law R}
    (hleft : ∀ count, left count ≠ 0 → 0 ≤ count)
    (hright : ∀ count, right count ≠ 0 → 0 ≤ count) :
    pool die (combine (· + ·) left right) =
      combine (· + ·) (pool die left) (pool die right) := by
  -- with negative counts raised to zero first, the equation is linear in both laws
  have hraised (left right : Law R) :
      pool die (combine (fun first second => (first.toNat + second.toNat : ℤ)) left right) =
        combine (· + ·) (pool die left) (pool die right) := by
    induction left using Finsupp.induction_linear with
    | zero => simp only [map_zero, LinearMap.zero_apply]
    | add first second ihFirst ihSecond =>
        simp only [map_add, LinearMap.add_apply, ihFirst, ihSecond]
    | single leftCount leftWeight =>
        induction right using Finsupp.induction_linear with
        | zero => simp only [map_zero]
        | add first second ihFirst ihSecond => simp only [map_add, ihFirst, ihSecond]
        | single rightCount rightWeight =>
            have hcount : (leftCount.toNat + rightCount.toNat : ℤ).toNat =
                leftCount.toNat + rightCount.toNat := Int.toNat_natCast _
            rw [combine_single_single, pool_single, pool_single, pool_single, hcount, power_add,
              map_smul, map_smul, LinearMap.smul_apply, smul_smul, mul_comm]
  have hsame : combine (· + ·) left right =
      combine (fun first second => (first.toNat + second.toNat : ℤ)) left right := by
    apply combine_congr
    intro first second hfirst hsecond
    rw [Int.toNat_of_nonneg (hleft first hfirst), Int.toNat_of_nonneg (hright second hsecond)]
  rw [hsame, hraised]

theorem power_smul (factor : R) (law : Law R) (count : ℕ) :
    power (factor • law) count = factor ^ count • power law count := by
  induction count with
  | zero => rw [pow_zero, one_smul, power, power]
  | succ count ih =>
      rw [power, power, ih, map_smul, map_smul, LinearMap.smul_apply, smul_smul, pow_succ]

theorem total_power (law : Law R) (count : ℕ) : total (power law count) = total law ^ count := by
  induction count with
  | zero => rw [power, total_single, pow_zero]
  | succ count ih => rw [power, total_combine, ih, pow_succ']

end Law

end DiceOdds
