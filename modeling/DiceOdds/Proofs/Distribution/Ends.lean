import DiceOdds.Proofs.Distribution.Proper

/-!
# The ends of a distribution

A distribution is known by its range and by what every integer weighs.  A proper distribution is
known by the weights alone, since its range reaches from the least integer that weighs anything to
the greatest.
-/

namespace DiceOdds.Distribution

variable {left right : Distribution}

theorem weightAt_start_add (distribution : Distribution) (index : ℕ) :
    distribution.weightAt (distribution.start + index) = distribution.weights.getD index 0 := by
  have hindex : (distribution.start + index - distribution.start).toNat = index := by omega
  rw [weightAt, if_neg (by omega), hindex]

theorem exists_weightAt_of_mem {distribution : Distribution} {weight : ℤ}
    (hmem : weight ∈ distribution.weights) : ∃ value, distribution.weightAt value = weight := by
  obtain ⟨index, hindex, rfl⟩ := List.getElem_of_mem hmem
  refine ⟨distribution.start + index, ?_⟩
  rw [weightAt_start_add, List.getD_eq_getElem _ _ hindex]

theorem weightAt_minimum (distribution : Distribution) :
    distribution.weightAt distribution.minimum =
      distribution.weights.head distribution.nonempty := by
  have hminimum : distribution.minimum = distribution.start + (0 : ℕ) := (add_zero _).symm
  rw [hminimum, weightAt_start_add, List.head_eq_getElem]
  exact List.getD_eq_getElem _ _ distribution.size_pos

theorem weightAt_maximum (distribution : Distribution) :
    distribution.weightAt distribution.maximum =
      distribution.weights.getLast distribution.nonempty := by
  have hsize := distribution.size_pos
  have hmaximum : distribution.maximum = distribution.start + (distribution.size - 1 : ℕ) := by
    rw [maximum]
    omega
  rw [hmaximum, weightAt_start_add, List.getLast_eq_getElem]
  exact List.getD_eq_getElem _ _ (Nat.sub_one_lt hsize.ne')

/-- Only integers of the range weigh anything. -/
theorem mem_range_of_weightAt_ne_zero {distribution : Distribution} {value : ℤ}
    (hvalue : distribution.weightAt value ≠ 0) :
    distribution.minimum ≤ value ∧ value ≤ distribution.maximum := by
  by_contra houtside
  rw [not_and_or, not_le, not_le] at houtside
  exact hvalue (weightAt_of_outside houtside)

theorem eq_of_weightAt (hminimum : left.minimum = right.minimum)
    (hmaximum : left.maximum = right.maximum)
    (hweight : ∀ value, left.weightAt value = right.weightAt value) : left = right := by
  obtain ⟨start, weights, hnonempty⟩ := left
  obtain ⟨_, others, hothers⟩ := right
  obtain rfl : start = _ := hminimum
  have hlength : weights.length = others.length := by
    simp only [maximum, size] at hmaximum
    omega
  congr
  apply List.ext_getElem hlength
  intro index hindex hother
  have hsame := hweight (start + index)
  rw [weightAt_start_add, weightAt_start_add] at hsame
  rwa [List.getD_eq_getElem _ _ hindex, List.getD_eq_getElem _ _ hother] at hsame

/-! ### Proper distributions -/

theorem Proper.weights_nonneg {distribution : Distribution} (hproper : distribution.Proper) :
    ∀ weight ∈ distribution.weights, 0 ≤ weight := by
  intro weight hmem
  rw [← map_snd_outcomes] at hmem
  obtain ⟨entry, hentry, rfl⟩ := List.mem_map.1 hmem
  exact hproper.nonneg_of_mem_outcomes hentry

theorem Proper.head_pos {distribution : Distribution} (hproper : distribution.Proper) :
    0 < distribution.weights.head distribution.nonempty := by
  rw [← weightAt_minimum]
  exact hproper.minimum_pos

theorem Proper.getLast_pos {distribution : Distribution} (hproper : distribution.Proper) :
    0 < distribution.weights.getLast distribution.nonempty := by
  rw [← weightAt_maximum]
  exact hproper.maximum_pos

theorem Proper.totalWeight_pos {distribution : Distribution} (hproper : distribution.Proper) :
    0 < distribution.totalWeight := by
  have hhead : distribution.weights.head distribution.nonempty ≤ distribution.weights.sum :=
    List.single_le_sum hproper.weights_nonneg _ (List.head_mem distribution.nonempty)
  rw [totalWeight_eq_sum]
  exact hproper.head_pos.trans_le hhead

/-- The range of a proper distribution is no wider than any range in which the same integers weigh
something. -/
theorem Proper.range_subset (hleft : left.Proper)
    (hweight : ∀ value, left.weightAt value = right.weightAt value) :
    right.minimum ≤ left.minimum ∧ left.maximum ≤ right.maximum := by
  have hminimum : right.weightAt left.minimum ≠ 0 := hweight _ ▸ hleft.minimum_pos.ne'
  have hmaximum : right.weightAt left.maximum ≠ 0 := hweight _ ▸ hleft.maximum_pos.ne'
  exact ⟨(mem_range_of_weightAt_ne_zero hminimum).1, (mem_range_of_weightAt_ne_zero hmaximum).2⟩

/-- Proper distributions with the same weights are the same. -/
theorem Proper.eq_iff_weightAt (hleft : left.Proper) (hright : right.Proper) :
    left = right ↔ ∀ value, left.weightAt value = right.weightAt value := by
  constructor
  · rintro rfl _
    rfl
  · intro hweight
    have houter := hleft.range_subset hweight
    have hinner := hright.range_subset fun value => (hweight value).symm
    exact eq_of_weightAt (le_antisymm hinner.1 houter.1) (le_antisymm houter.2 hinner.2) hweight

end DiceOdds.Distribution
