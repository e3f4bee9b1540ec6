import DiceOdds.Proofs.Distribution.Pairs
import DiceOdds.Proofs.Law.Top

/-!
# Where a difference is exact

A difference has the weights of the sum.  The true difference has the weights of the sum with the
mirror image of the right side, mirrored at its minimum.  As a law that weighs something can be
cancelled in a sum, the two agree only if the right side is its own mirror image, and since nothing
lies below its minimum, nothing above it may weigh anything.
-/

namespace DiceOdds

namespace Law

variable {R : Type*} [CommSemiring R]

/-- The mirror image of a law at `pivot`. -/
noncomputable def mirror (pivot : ℤ) (law : Law R) : Law R :=
  Finsupp.mapDomain (2 * pivot - ·) law

theorem mirror_apply (pivot : ℤ) (law : Law R) (value : ℤ) :
    mirror pivot law value = law (2 * pivot - value) := by
  have hvalue : 2 * pivot - (2 * pivot - value) = value := sub_sub_cancel _ _
  have happly := Finsupp.mapDomain_apply (sub_right_injective (b := 2 * pivot)) law
    (2 * pivot - value)
  rwa [hvalue] at happly

/-- To subtract a result is to add its mirror image. -/
theorem combine_sub_apply (pivot : ℤ) (left right : Law R) (value : ℤ) :
    combine (· - ·) left right value =
      combine (· + ·) left (mirror pivot right) (value + 2 * pivot) := by
  have hmove : (fun leftValue rightValue : ℤ => leftValue - rightValue + 2 * pivot) =
      fun leftValue rightValue => leftValue + (2 * pivot - rightValue) := by
    funext leftValue rightValue
    ring
  calc combine (· - ·) left right value
      = Finsupp.mapDomain (· + 2 * pivot) (combine (· - ·) left right) (value + 2 * pivot) :=
        (Finsupp.mapDomain_apply (add_left_injective _) _ _).symm
    _ = combine (· + ·) left (mirror pivot right) (value + 2 * pivot) := by
        rw [mapDomain_combine, hmove, mirror, combine_mapDomain_right]

end Law

namespace Distribution

theorem law_ne_zero {distribution : Distribution}
    (hweight : ∃ weight ∈ distribution.weights, weight ≠ 0) : distribution.law ≠ 0 := by
  obtain ⟨weight, hmem, hne⟩ := hweight
  obtain ⟨value, rfl⟩ := exists_weightAt_of_mem hmem
  intro hzero
  rw [← law_apply, hzero] at hne
  exact hne rfl

theorem forall_mem_tail_iff (distribution : Distribution) :
    (∀ weight ∈ distribution.weights.tail, weight = 0) ↔
      ∀ value, distribution.minimum < value → distribution.weightAt value = 0 := by
  have hweight (index : ℕ) : distribution.weightAt (distribution.start + (index + 1 : ℕ)) =
      distribution.weights.tail.getD index 0 := by
    rw [weightAt_start_add, List.getD_eq_getElem?_getD, List.getD_eq_getElem?_getD,
      List.getElem?_tail]
  constructor
  · intro hzero value hvalue
    obtain ⟨index, rfl⟩ : ∃ index : ℕ, value = distribution.start + (index + 1 : ℕ) := by
      refine ⟨(value - distribution.start - 1).toNat, ?_⟩
      rw [minimum] at hvalue
      omega
    rw [hweight, List.getD_eq_getElem?_getD]
    cases htail : distribution.weights.tail[index]? with
    | none => rfl
    | some weight => exact hzero weight (List.mem_of_getElem? htail)
  · intro hzero weight hmem
    obtain ⟨index, hindex, rfl⟩ := List.getElem_of_mem hmem
    rw [← List.getD_eq_getElem _ 0 hindex, ← hweight]
    apply hzero
    rw [minimum]
    omega

/-- Nothing lies below the minimum, so only a law that is all at the minimum is mirrored there to
itself. -/
theorem mirror_law_eq_iff (distribution : Distribution) :
    Law.mirror distribution.minimum distribution.law = distribution.law ↔
      ∀ weight ∈ distribution.weights.tail, weight = 0 := by
  rw [forall_mem_tail_iff]
  constructor
  · intro hmirror value hvalue
    rw [← law_apply, ← hmirror, Law.mirror_apply, law_apply]
    exact weightAt_of_outside (.inl (by omega))
  · intro hzero
    ext value
    rw [Law.mirror_apply, law_apply, law_apply]
    obtain hbelow | rfl | habove := lt_trichotomy value distribution.minimum
    · rw [weightAt_of_outside (.inl hbelow), hzero _ (by omega)]
    · congr 1
      omega
    · rw [weightAt_of_outside (.inl (by omega)), hzero _ habove]

/-- If the left side weighs anything, a difference gives all integers the weights of the true
difference exactly when the right side weighs nothing past its first weight. -/
theorem weightAt_sub_eq_iff {left : Distribution} (hleft : ∃ weight ∈ left.weights, weight ≠ 0)
    (right : Distribution) :
    (∀ value, (left - right).weightAt value = pairWeight (· - ·) left right value) ↔
      ∀ weight ∈ right.weights.tail, weight = 0 := by
  have hsub (value : ℤ) : (left - right).weightAt value =
      Law.combine (· + ·) left.law right.law (value + 2 * right.minimum) := by
    rw [weightAt_sub, ← law_apply, law_add]
  have htrue (value : ℤ) : pairWeight (· - ·) left right value =
      Law.combine (· + ·) left.law (Law.mirror right.minimum right.law)
        (value + 2 * right.minimum) := by
    rw [← combine_law_apply, Law.combine_sub_apply right.minimum]
  rw [← mirror_law_eq_iff, ← (Law.combine_add_injective (law_ne_zero hleft)).eq_iff,
    DFunLike.ext_iff]
  constructor
  · intro hexact value
    have hvalue := hexact (value - 2 * right.minimum)
    rw [hsub, htrue, sub_add_cancel] at hvalue
    exact hvalue.symm
  · intro hsame value
    rw [hsub, htrue, hsame]

/-- A coin with the sides zero and one. -/
def coin : Distribution :=
  ⟨0, [1, 1], by decide⟩

/-- A three, in a range that ends with a four. -/
def paddedThree : Distribution :=
  ⟨3, [2, 0], by decide⟩

/-- Three is taken off a coin as it should be, and another coin is not. -/
theorem coin_less_paddedThree_or_coin :
    (∃ weight ∈ coin.weights, weight ≠ 0) ∧
      (∀ value, (coin - paddedThree).weightAt value =
        pairWeight (· - ·) coin paddedThree value) ∧
      ¬ ∀ value, (coin - coin).weightAt value = pairWeight (· - ·) coin coin value := by
  have hcoin : ∃ weight ∈ coin.weights, weight ≠ 0 := ⟨1, by decide, one_ne_zero⟩
  refine ⟨hcoin, (weightAt_sub_eq_iff hcoin paddedThree).2 (by decide), fun hexact => ?_⟩
  exact absurd ((weightAt_sub_eq_iff hcoin coin).1 hexact) (by decide)

end Distribution

end DiceOdds
