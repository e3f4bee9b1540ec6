import DiceOdds.Proofs.Distribution.Pairs

/-!
# A pool is a mixture

A pool gives every integer what the sums of so many dice give it, each count by its weight.  The
part of a count reaches from so many times the minimum of the die to so many times its maximum, and
merged parts reach from the least minimum to the greatest maximum, so the range of a pool is no
wider than its counts make it.
-/

namespace DiceOdds.Distribution

variable {counts die pooled : Distribution}

/-! ### The range of a part -/

/-- Every die moves an end of the range by the same end of its own, if such ends add up in sums. -/
theorem limit_rollMore {limitOf : Distribution → ℤ}
    (hadd : ∀ left right, limitOf (left + right) = limitOf left + limitOf right)
    (die rolled : Distribution) (more : ℕ) :
    limitOf (rollMore die rolled more) = limitOf rolled + more * limitOf die := by
  induction more generalizing rolled with
  | zero => rw [rollMore, Nat.cast_zero, zero_mul, add_zero]
  | succ more ih =>
      rw [rollMore, ih, hadd]
      push_cast
      ring

theorem minimum_poolPart (die : Distribution) (entry : ℤ × ℤ) :
    (poolPart die entry).minimum = entry.1.toNat * die.minimum := by
  rw [poolPart, minimum_scaled, limit_rollMore minimum_add]
  exact zero_add _

theorem maximum_poolPart (die : Distribution) (entry : ℤ × ℤ) :
    (poolPart die entry).maximum = entry.1.toNat * die.maximum := by
  rw [poolPart, maximum_scaled, limit_rollMore maximum_add]
  exact zero_add _

/-! ### The range of a pool -/

/-- So many times `limit`, for each number of dice that weighs anything. -/
def multiples (counts : Distribution) (limit : ℤ) : Set ℤ :=
  {bound | ∃ count, counts.weightAt count ≠ 0 ∧ bound = count.toNat * limit}

theorem mem_map_poolPart_iff {limitOf : Distribution → ℤ} {limit bound : ℤ}
    (hpart : ∀ entry, limitOf (poolPart die entry) = entry.1.toNat * limit) :
    bound ∈ (counts.live.map (poolPart die)).map limitOf ↔ bound ∈ counts.multiples limit := by
  rw [List.map_map, List.mem_map]
  constructor
  · rintro ⟨entry, hentry, rfl⟩
    obtain ⟨hweight, hne⟩ := mem_live_iff.1 hentry
    exact ⟨entry.1, hweight ▸ hne, hpart entry⟩
  · rintro ⟨count, hcount, rfl⟩
    exact ⟨(count, counts.weightAt count), mem_live_iff.2 ⟨rfl, hcount⟩, hpart _⟩

theorem min?_minimum (part : Distribution) (parts : List Distribution) :
    ((part :: parts).map minimum).min? = some (parts.foldl merged part).minimum := by
  rw [List.map_cons, List.min?_cons', List.foldl_map]
  exact congrArg some (List.foldl_hom minimum fun left right => (minimum_merged left right).symm)

theorem max?_maximum (part : Distribution) (parts : List Distribution) :
    ((part :: parts).map maximum).max? = some (parts.foldl merged part).maximum := by
  rw [List.map_cons, List.max?_cons', List.foldl_map]
  exact congrArg some (List.foldl_hom maximum fun left right => (maximum_merged left right).symm)

theorem isLeast_minimum_of_pool (hpool : pool counts die = .ok pooled) :
    IsLeast (counts.multiples die.minimum) pooled.minimum := by
  obtain ⟨part, parts, hparts, rfl⟩ := pool_eq_ok_iff.1 hpool
  have hminimum := min?_minimum part parts
  rw [← hparts, List.min?_eq_some_iff] at hminimum
  simp only [mem_map_poolPart_iff (minimum_poolPart die)] at hminimum
  exact hminimum

theorem isGreatest_maximum_of_pool (hpool : pool counts die = .ok pooled) :
    IsGreatest (counts.multiples die.maximum) pooled.maximum := by
  obtain ⟨part, parts, hparts, rfl⟩ := pool_eq_ok_iff.1 hpool
  have hmaximum := max?_maximum part parts
  rw [← hparts, List.max?_eq_some_iff] at hmaximum
  simp only [mem_map_poolPart_iff (maximum_poolPart die)] at hmaximum
  exact hmaximum

/-! ### The weights of a pool -/

theorem pool_law_apply (counts die : Distribution) (value : ℤ) :
    Law.pool die.law counts.law value =
      ∑ count ∈ Finset.Icc counts.minimum counts.maximum,
        counts.weightAt count * Law.power die.law count.toNat value := by
  have hzero : ∀ count ∈ Finset.Icc counts.minimum counts.maximum,
      (0 : ℤ) • Law.power die.law count.toNat = 0 := fun count _ => zero_smul ℤ _
  rw [Law.pool, Finsupp.linearCombination_apply,
    Finsupp.sum_of_support_subset _ counts.support_law_subset _ hzero, Finsupp.finsetSum_apply]
  simp only [Finsupp.smul_apply, law_apply, smul_eq_mul]

theorem live_eq_nil (hzero : ∀ weight ∈ counts.weights, weight = 0) : counts.live = [] := by
  rw [live, List.filter_eq_nil_iff]
  intro entry hentry
  have hmem : entry.2 ∈ counts.weights := by
    rw [← map_snd_outcomes]
    exact List.mem_map_of_mem hentry
  simpa using hzero _ hmem

/-- As soon as some number of dice weighs anything, a pool gives every integer the weight of the
mixture: the sums of so many dice, none if the number is negative, by the weight of the number.  Its
ends are the least and the greatest multiples of the ends of the die.  If no number weighs anything,
there is no pool. -/
theorem pool_is_mixture (counts die : Distribution) :
    ((∃ weight ∈ counts.weights, weight ≠ 0) →
      ∃ pooled, counts.pool die = .ok pooled ∧
        (∀ value, pooled.weightAt value =
          ∑ count ∈ Finset.Icc counts.minimum counts.maximum,
            counts.weightAt count * Law.power die.law count.toNat value) ∧
        IsLeast (counts.multiples die.minimum) pooled.minimum ∧
        IsGreatest (counts.multiples die.maximum) pooled.maximum) ∧
    ((∀ weight ∈ counts.weights, weight = 0) → counts.pool die = .error .noCounts) := by
  constructor
  · rintro ⟨weight, hmem, hne⟩
    obtain ⟨value, rfl⟩ := exists_weightAt_of_mem hmem
    obtain ⟨pooled, hpool⟩ := exists_pool hne die
    refine ⟨pooled, hpool, fun value => ?_, isLeast_minimum_of_pool hpool,
      isGreatest_maximum_of_pool hpool⟩
    rw [← law_apply, law_of_pool hpool, pool_law_apply]
  · intro hzero
    rw [pool, poolParts_outcomes, live_eq_nil hzero]
    rfl

/-- Two dice weigh less than nothing, one die weighs nothing, and minus one stands for no dice. -/
def mixedCounts : Distribution :=
  ⟨-1, [2, 0, 0, -1], List.cons_ne_nil _ _⟩

def leaningDie : Distribution :=
  ⟨-1, [1, 3], List.cons_ne_nil _ _⟩

def idleCounts : Distribution :=
  ⟨1, [0, 0], List.cons_ne_nil _ _⟩

theorem pool_mixedCounts :
    (∃ weight ∈ mixedCounts.weights, weight ≠ 0) ∧
      ∃ pooled, mixedCounts.pool leaningDie = .ok pooled ∧ pooled.weights = [-1, -6, -7] ∧
        (∀ value, pooled.weightAt value =
          ∑ count ∈ Finset.Icc (-1) 2,
            mixedCounts.weightAt count * Law.power leaningDie.law count.toNat value) ∧
        IsLeast (mixedCounts.multiples (-1)) (-2) ∧ IsGreatest (mixedCounts.multiples 0) 0 ∧
      (∀ weight ∈ idleCounts.weights, weight = 0) ∧
        idleCounts.pool leaningDie = .error .noCounts := by
  have hweight : ∃ weight ∈ mixedCounts.weights, weight ≠ 0 := by decide
  have hrolled : mixedCounts.pool leaningDie = .ok ⟨-2, [-1, -6, -7], List.cons_ne_nil _ _⟩ := by
    decide
  obtain ⟨pooled, hpool, hmixture, hminimum, hmaximum⟩ :=
    (pool_is_mixture mixedCounts leaningDie).1 hweight
  obtain rfl := Except.ok.inj (hrolled.symm.trans hpool)
  have hidle : ∀ weight ∈ idleCounts.weights, weight = 0 := by decide
  exact ⟨hweight, _, hpool, rfl, hmixture, hminimum, hmaximum, hidle,
    (pool_is_mixture idleCounts leaningDie).2 hidle⟩

end DiceOdds.Distribution
