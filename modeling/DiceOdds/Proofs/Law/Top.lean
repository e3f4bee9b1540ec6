import DiceOdds.Proofs.Law.Order

/-!
# The greatest result of a law

The greatest result of a sum, a product or a pool takes the greatest results of all its parts and no
others, as long as the factors of a product are not negative and a pool rolls any dice.
-/

namespace DiceOdds.Law

variable {law die left right counts : Law ℚ} {top top' : ℤ}

/-- The law has no negative weight, and `top` is its greatest result. -/
structure HasTop (law : Law ℚ) (top : ℤ) : Prop where
  nonneg : 0 ≤ law
  le_top : ∀ value, law value ≠ 0 → value ≤ top
  top_pos : 0 < law top

theorem exists_hasTop (hlaw : 0 ≤ law) (htotal : total law ≠ 0) : ∃ top, HasTop law top := by
  have hsupport : law.support.Nonempty := by
    rw [Finsupp.support_nonempty_iff]
    rintro rfl
    exact htotal (map_zero total)
  refine ⟨law.support.max' hsupport, hlaw, ?_, ?_⟩
  · intro value hvalue
    exact law.support.le_max' value (Finsupp.mem_support_iff.2 hvalue)
  · have hne := Finsupp.mem_support_iff.1 (law.support.max'_mem hsupport)
    exact (hlaw _).lt_of_ne' hne

theorem hasTop_single (value : ℤ) {weight : ℚ} (hweight : 0 < weight) :
    HasTop (Finsupp.single value weight) value := by
  constructor
  · exact Finsupp.single_nonneg.2 hweight.le
  · intro other hother
    exact (Finsupp.single_apply_ne_zero.1 hother).1.le
  · rwa [Finsupp.single_eq_same]

theorem combine_add_apply_top {R : Type*} [CommSemiring R] {left right : Law R}
    (hleft : ∀ value, left value ≠ 0 → value ≤ top)
    (hright : ∀ value, right value ≠ 0 → value ≤ top') :
    combine (· + ·) left right (top + top') = left top * right top' := by
  apply combine_apply_of_unique
  intro leftValue rightValue hleftValue hrightValue hsum
  have := hleft leftValue hleftValue
  have := hright rightValue hrightValue
  omega

/-- The greatest results of two laws are not cancelled out in their sum. -/
theorem combine_add_ne_zero {R : Type*} [CommSemiring R] [NoZeroDivisors R] {left right : Law R}
    (hleft : left ≠ 0) (hright : right ≠ 0) : combine (· + ·) left right ≠ 0 := by
  have hleftSupport := Finsupp.support_nonempty_iff.2 hleft
  have hrightSupport := Finsupp.support_nonempty_iff.2 hright
  have hleftTop : ∀ value, left value ≠ 0 → value ≤ left.support.max' hleftSupport :=
    fun value hvalue => left.support.le_max' value (Finsupp.mem_support_iff.2 hvalue)
  have hrightTop : ∀ value, right value ≠ 0 → value ≤ right.support.max' hrightSupport :=
    fun value hvalue => right.support.le_max' value (Finsupp.mem_support_iff.2 hvalue)
  have htop := combine_add_apply_top hleftTop hrightTop
  intro hzero
  rw [hzero] at htop
  exact mul_ne_zero (Finsupp.mem_support_iff.1 (left.support.max'_mem hleftSupport))
    (Finsupp.mem_support_iff.1 (right.support.max'_mem hrightSupport)) htop.symm

/-- What is added to a law that weighs something is told by the sum. -/
theorem combine_add_injective {R : Type*} [CommRing R] [NoZeroDivisors R] {left : Law R}
    (hleft : left ≠ 0) : Function.Injective (combine (· + ·) left) := by
  intro first second hsame
  by_contra hne
  apply combine_add_ne_zero hleft (sub_ne_zero.2 hne)
  rw [map_sub, hsame, sub_self]

theorem HasTop.add (hleft : HasTop left top) (hright : HasTop right top') :
    HasTop (combine (· + ·) left right) (top + top') := by
  constructor
  · exact combine_nonneg _ hleft.nonneg hright.nonneg
  · intro value hvalue
    obtain ⟨leftValue, rightValue, hleftValue, hrightValue, rfl⟩ :=
      exists_of_combine_ne_zero hvalue
    exact add_le_add (hleft.le_top _ hleftValue) (hright.le_top _ hrightValue)
  · rw [combine_add_apply_top hleft.le_top hright.le_top]
    exact mul_pos hleft.top_pos hright.top_pos

/-- The greatest product takes both greatest factors, unless it is zero. -/
theorem combine_mul_apply_top (htop : 0 < top) (htop' : 0 < top')
    (hleft : ∀ value, left value ≠ 0 → 0 ≤ value ∧ value ≤ top)
    (hright : ∀ value, right value ≠ 0 → 0 ≤ value ∧ value ≤ top') :
    combine (· * ·) left right (top * top') = left top * right top' := by
  apply combine_apply_of_unique
  intro leftValue rightValue hleftValue hrightValue hproduct
  have hleftRange := hleft leftValue hleftValue
  have hrightRange := hright rightValue hrightValue
  constructor
  · by_contra hne
    have hless : leftValue < top := hleftRange.2.lt_of_ne hne
    have hle := mul_le_mul_of_nonneg_left hrightRange.2 hleftRange.1
    exact (hle.trans_lt (mul_lt_mul_of_pos_right hless htop')).ne hproduct
  · by_contra hne
    have hless : rightValue < top' := hrightRange.2.lt_of_ne hne
    have hle := mul_le_mul_of_nonneg_right hleftRange.2 hrightRange.1
    exact (hle.trans_lt (mul_lt_mul_of_pos_left hless htop)).ne hproduct

theorem HasTop.mul (hleft : HasTop left top) (hright : HasTop right top')
    (htop : 0 < top) (htop' : 0 < top') (hleftNonneg : ∀ value, left value ≠ 0 → 0 ≤ value)
    (hrightNonneg : ∀ value, right value ≠ 0 → 0 ≤ value) :
    HasTop (combine (· * ·) left right) (top * top') := by
  constructor
  · exact combine_nonneg _ hleft.nonneg hright.nonneg
  · intro value hvalue
    obtain ⟨leftValue, rightValue, hleftValue, hrightValue, rfl⟩ :=
      exists_of_combine_ne_zero hvalue
    exact mul_le_mul (hleft.le_top _ hleftValue) (hright.le_top _ hrightValue)
      (hrightNonneg _ hrightValue) htop.le
  · rw [combine_mul_apply_top htop htop'
      (fun value hvalue => ⟨hleftNonneg value hvalue, hleft.le_top value hvalue⟩)
      (fun value hvalue => ⟨hrightNonneg value hvalue, hright.le_top value hvalue⟩)]
    exact mul_pos hleft.top_pos hright.top_pos

theorem HasTop.power (hdie : HasTop die top) (count : ℕ) :
    HasTop (power die count) (count * top) := by
  induction count with
  | zero =>
      rw [Nat.cast_zero, zero_mul]
      exact hasTop_single 0 one_pos
  | succ count ih =>
      rw [Nat.cast_succ, add_one_mul, add_comm (count * top : ℤ)]
      exact hdie.add ih

theorem nonneg_of_power_ne_zero (hdie : ∀ value, die value ≠ 0 → 0 ≤ value) {count : ℕ}
    {value : ℤ} (hvalue : power die count value ≠ 0) : 0 ≤ value := by
  induction count generalizing value with
  | zero => exact (Finsupp.single_apply_ne_zero.1 hvalue).1.ge
  | succ count ih =>
      obtain ⟨first, rest, hfirst, hrest, rfl⟩ := exists_of_combine_ne_zero hvalue
      exact add_nonneg (hdie first hfirst) (ih hrest)

/-- The greatest result of a pool takes the greatest count, provided that it rolls any dice. -/
theorem pool_apply_top (hdie : HasTop die top') (hfaces : 0 < top')
    (hcounts : ∀ count, counts count ≠ 0 → count ≤ top) (htop : 0 < top) :
    pool die counts (top * top') = counts top * power die top.toNat (top * top') := by
  rw [pool, Finsupp.linearCombination_apply, Finsupp.sum_apply, Finsupp.sum,
    Finset.sum_eq_single top]
  · rfl
  · intro count hcount hne
    have hless : count < top := (hcounts count (Finsupp.mem_support_iff.1 hcount)).lt_of_ne hne
    have htoNat : (count.toNat : ℤ) < top := by omega
    have hpower : power die count.toNat (top * top') = 0 := by
      by_contra hne
      have hle := (hdie.power count.toNat).le_top _ hne
      exact absurd (le_of_mul_le_mul_right hle hfaces) (not_le.2 htoNat)
    rw [Finsupp.smul_apply, hpower, smul_zero]
  · intro hmem
    rw [Finsupp.notMem_support_iff.1 hmem, zero_smul]
    rfl

theorem HasTop.pool (hdie : HasTop die top') (hfaces : 0 < top')
    (hcounts : HasTop counts top) (htop : 0 < top) : HasTop (pool die counts) (top * top') := by
  constructor
  · exact pool_nonneg hdie.nonneg hcounts.nonneg
  · intro value hvalue
    obtain ⟨count, hcount, hvalue⟩ := exists_of_pool_ne_zero hvalue
    have hless := hcounts.le_top count hcount
    have htoNat : (count.toNat : ℤ) ≤ top := by omega
    exact ((hdie.power count.toNat).le_top value hvalue).trans
      (mul_le_mul_of_nonneg_right htoNat hfaces.le)
  · have htoNat : (top.toNat : ℤ) = top := Int.toNat_of_nonneg htop.le
    have hpower := (hdie.power top.toNat).top_pos
    rw [htoNat] at hpower
    rw [pool_apply_top hdie hfaces hcounts.le_top htop]
    exact mul_pos hcounts.top_pos hpower

end DiceOdds.Law
