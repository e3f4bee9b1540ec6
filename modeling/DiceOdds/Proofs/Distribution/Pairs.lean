import DiceOdds.Proofs.Distribution.Ends

/-!
# Weights of sums and products

Two independent outcomes lead to a result through every pair of integers that their combination
takes to it, and the pair weighs the product of the two weights.  The sum and the product give every
integer the weight of its pairs, and no pair is lost: both ranges hold what the pairs lead to, and
no further than the least and the greatest of it.
-/

namespace DiceOdds.Distribution

/-- What all pairs of integers of the two ranges weigh that `operation` takes to `result`. -/
noncomputable def pairWeight (operation : ℤ → ℤ → ℤ) (left right : Distribution) (result : ℤ) : ℤ :=
  ∑ pair ∈ Finset.Icc left.minimum left.maximum ×ˢ Finset.Icc right.minimum right.maximum
    with operation pair.1 pair.2 = result,
    left.weightAt pair.1 * right.weightAt pair.2

theorem support_law_subset (distribution : Distribution) :
    distribution.law.support ⊆ Finset.Icc distribution.minimum distribution.maximum := by
  intro value hvalue
  rw [Finsupp.mem_support_iff, law_apply] at hvalue
  exact Finset.mem_Icc.2 (mem_range_of_weightAt_ne_zero hvalue)

theorem combine_law_apply (operation : ℤ → ℤ → ℤ) (left right : Distribution) (result : ℤ) :
    Law.combine operation left.law right.law result = pairWeight operation left right result := by
  rw [Law.combine_apply, pairWeight, Finset.sum_filter, ← Finset.sum_product']
  simp only [law_apply]
  apply Finset.sum_subset
  · exact Finset.product_subset_product left.support_law_subset right.support_law_subset
  · rintro ⟨leftValue, rightValue⟩ _ houtside
    simp only [Finset.mem_product, Finsupp.mem_support_iff, law_apply, not_and_or, not_not]
      at houtside
    obtain hzero | hzero := houtside
    · rw [hzero, zero_mul, ite_self]
    · rw [hzero, mul_zero, ite_self]

/-! ### The range of a product -/

theorem exists_mem_outcomes {distribution : Distribution} {value : ℤ}
    (hvalue : distribution.minimum ≤ value ∧ value ≤ distribution.maximum) :
    ∃ weight, (value, weight) ∈ distribution.outcomes := by
  rw [minimum, maximum, size] at hvalue
  have hindex : (value - distribution.start).toNat < distribution.weights.length := by omega
  have hposition : distribution.start + ((value - distribution.start).toNat : ℤ) = value := by omega
  exact ⟨_, List.mem_mapIdx.2 ⟨_, hindex, congrArg (·, _) hposition⟩⟩

theorem mem_products_iff {left right : Distribution} {value : ℤ} :
    value ∈ (pairs (· * ·) left right).map Prod.fst ↔
      ∃ leftValue rightValue, value = leftValue * rightValue ∧
        (left.minimum ≤ leftValue ∧ leftValue ≤ left.maximum) ∧
        (right.minimum ≤ rightValue ∧ rightValue ≤ right.maximum) := by
  rw [List.mem_map]
  constructor
  · rintro ⟨entry, hentry, rfl⟩
    exact mem_pairs hentry
  · rintro ⟨leftValue, rightValue, rfl, hleft, hright⟩
    obtain ⟨leftWeight, hleft⟩ := exists_mem_outcomes hleft
    obtain ⟨rightWeight, hright⟩ := exists_mem_outcomes hright
    exact ⟨(leftValue * rightValue, leftWeight * rightWeight), List.mem_flatMap.2
      ⟨_, hleft, List.mem_map.2 ⟨_, hright, rfl⟩⟩, rfl⟩

/-- The range of a product reaches from the least to the greatest of all products. -/
theorem range_mul_eq_products (left right : Distribution) :
    ((pairs (· * ·) left right).map Prod.fst).min? = some (left * right).minimum ∧
      ((pairs (· * ·) left right).map Prod.fst).max? = some (left * right).maximum := by
  have hends := ends_mul left right
    (motive := (· ∈ (pairs (· * ·) left right).map Prod.fst))
    fun leftEnd rightEnd hleftEnd hrightEnd => by
      have hleft := left.minimum_le_maximum
      have hright := right.minimum_le_maximum
      exact mem_products_iff.2 ⟨leftEnd, rightEnd, rfl, by omega, by omega⟩
  rw [List.min?_eq_some_iff, List.max?_eq_some_iff]
  simp only [mem_products_iff] at hends ⊢
  refine ⟨⟨hends.1, ?_⟩, hends.2, ?_⟩
  · rintro _ ⟨leftValue, rightValue, rfl, hleft, hright⟩
    exact (mul_mem_range hleft hright).1
  · rintro _ ⟨leftValue, rightValue, rfl, hleft, hright⟩
    exact (mul_mem_range hleft hright).2

/-! ### Writes -/

/-- Adds `weight` to the bucket at `index`, which there has to be. -/
def addToBucket? (buckets : Array ℤ) (index weight : ℤ) : Option (Array ℤ) :=
  if 0 ≤ index ∧ index < buckets.size then some (addToBucket buckets index weight) else none

def fillBuckets? (low : ℤ) (buckets : Array ℤ) (entries : List (ℤ × ℤ)) : Option (Array ℤ) :=
  entries.foldlM (fun buckets (value, weight) => addToBucket? buckets (value - low) weight) buckets

/-- If there is a bucket for every entry, no write is left out. -/
theorem fillBuckets?_eq_some {low : ℤ} {buckets : Array ℤ} {entries : List (ℤ × ℤ)}
    (hbuckets : ∀ entry ∈ entries, 0 ≤ entry.1 - low ∧ entry.1 - low < buckets.size) :
    fillBuckets? low buckets entries = some (fillBuckets low buckets entries) := by
  induction entries generalizing buckets with
  | nil => rfl
  | cons entry entries ih =>
      obtain ⟨value, weight⟩ := entry
      obtain ⟨hentry, hrest⟩ := List.forall_mem_cons.1 hbuckets
      have hwrite : addToBucket? buckets (value - low) weight =
          some (addToBucket buckets (value - low) weight) := if_pos hentry
      calc fillBuckets? low buckets ((value, weight) :: entries)
          = (addToBucket? buckets (value - low) weight).bind (fillBuckets? low · entries) := rfl
        _ = fillBuckets? low (addToBucket buckets (value - low) weight) entries := by
          rw [hwrite, Option.bind_some]
        _ = some (fillBuckets low buckets ((value, weight) :: entries)) :=
          ih (by rwa [size_addToBucket])

theorem fillBuckets?_of_eq_tally {distribution : Distribution} {low high : ℤ}
    {entries : List (ℤ × ℤ)} (htally : distribution = tally low high entries)
    (hrange : ∀ entry ∈ entries, low ≤ entry.1 ∧ entry.1 ≤ high) :
    fillBuckets? low (emptyBuckets low high) entries = some distribution.weights.toArray := by
  rw [fillBuckets?_eq_some, htally]
  · rfl
  · intro entry hmem
    have hentry := hrange entry hmem
    rw [emptyBuckets, Array.size_replicate]
    omega

/-- Sums, products and mergers make every one of their writes: each entry has a bucket between the
ends of the range. -/
theorem every_write_made (left right : Distribution) :
    fillBuckets? (left + right).minimum
        (emptyBuckets (left + right).minimum (left + right).maximum) (pairs (· + ·) left right) =
      some (left + right).weights.toArray ∧
    fillBuckets? (left * right).minimum
        (emptyBuckets (left * right).minimum (left * right).maximum) (pairs (· * ·) left right) =
      some (left * right).weights.toArray ∧
    fillBuckets? (left.merged right).minimum
        (emptyBuckets (left.merged right).minimum (left.merged right).maximum)
        (left.outcomes ++ right.outcomes) =
      some (left.merged right).weights.toArray := by
  rw [minimum_add, maximum_add, minimum_merged, maximum_merged, minimum_mul, maximum_mul]
  refine ⟨fillBuckets?_of_eq_tally (combined_eq_tally _ _ _ _ _) ?_,
    fillBuckets?_of_eq_tally (combined_eq_tally _ _ _ _ _) ?_, fillBuckets?_of_eq_tally rfl ?_⟩
  · intro entry hmem
    obtain ⟨leftValue, rightValue, hentry, hleft, hright⟩ := mem_pairs hmem
    rw [hentry]
    exact ⟨add_le_add hleft.1 hright.1, add_le_add hleft.2 hright.2⟩
  · intro entry hmem
    obtain ⟨leftValue, rightValue, hentry, hleft, hright⟩ := mem_pairs hmem
    rw [hentry, ← minimum_mul, ← maximum_mul]
    exact mul_mem_range hleft hright
  · intro entry hmem
    obtain hmem | hmem := List.mem_append.1 hmem
    · have := mem_range_of_mem_outcomes hmem
      omega
    · have := mem_range_of_mem_outcomes hmem
      omega

/-! ### Weights and ranges -/

/-- Sums and products give every integer the weight of the pairs that lead to it.  A sum reaches
from the sum of the minima to the sum of the maxima, a product from the least to the greatest
product of two ends, and the product of any two integers of the ranges is in between. -/
theorem weights_and_ranges_of_add_mul (left right : Distribution) :
    (∀ value, (left + right).weightAt value = pairWeight (· + ·) left right value) ∧
    (∀ value, (left * right).weightAt value = pairWeight (· * ·) left right value) ∧
    (left + right).minimum = left.minimum + right.minimum ∧
    (left + right).maximum = left.maximum + right.maximum ∧
    (left * right).minimum =
      min (min (left.minimum * right.minimum) (left.minimum * right.maximum))
        (min (left.maximum * right.minimum) (left.maximum * right.maximum)) ∧
    (left * right).maximum =
      max (max (left.minimum * right.minimum) (left.minimum * right.maximum))
        (max (left.maximum * right.minimum) (left.maximum * right.maximum)) ∧
    ∀ leftValue ∈ Finset.Icc left.minimum left.maximum,
      ∀ rightValue ∈ Finset.Icc right.minimum right.maximum,
        leftValue * rightValue ∈ Finset.Icc (left * right).minimum (left * right).maximum := by
  refine ⟨fun value => ?_, fun value => ?_, minimum_add left right, maximum_add left right,
    minimum_mul left right, maximum_mul left right, ?_⟩
  · rw [← law_apply, law_add, combine_law_apply]
  · rw [← law_apply, law_mul, combine_law_apply]
  · intro leftValue hleft rightValue hright
    rw [Finset.mem_Icc] at hleft hright ⊢
    exact mul_mem_range hleft hright

/-- Weights may be negative, and an integer whose pairs weigh nothing keeps its place. -/
example : (⟨-1, [1, -2, 3], by decide⟩ * ⟨-2, [4, 0, 5], by decide⟩ : Distribution) =
    ⟨-2, [12, 0, 2, 0, 4], by decide⟩ := by
  decide

end DiceOdds.Distribution
