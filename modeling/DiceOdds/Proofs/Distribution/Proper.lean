import DiceOdds.Proofs.Distribution.Pool
import DiceOdds.Proofs.Law.Order

/-!
# Proper distributions

A proper distribution weighs nothing less than zero and both ends of its range more than zero.  All
operations lead from proper distributions to proper ones, so no range is ever too wide.
-/

namespace DiceOdds.Distribution

structure Proper (distribution : Distribution) : Prop where
  nonneg : ∀ value, 0 ≤ distribution.weightAt value
  minimum_pos : 0 < distribution.weightAt distribution.minimum
  maximum_pos : 0 < distribution.weightAt distribution.maximum

variable {left right : Distribution}

theorem Proper.law_nonneg {distribution : Distribution} (hproper : distribution.Proper) :
    0 ≤ distribution.law := by
  intro value
  rw [law_apply]
  exact hproper.nonneg value

theorem Proper.nonneg_of_mem_outcomes {distribution : Distribution}
    (hproper : distribution.Proper) {entry : ℤ × ℤ} (hmem : entry ∈ distribution.outcomes) :
    0 ≤ entry.2 := by
  rw [← weightAt_of_mem_outcomes hmem]
  exact hproper.nonneg entry.1

/-- Results that both weigh something lead to a result that does. -/
theorem Proper.combine_pos (hleft : left.Proper) (hright : right.Proper) (operation : ℤ → ℤ → ℤ)
    {leftValue rightValue : ℤ} (hleftValue : 0 < left.weightAt leftValue)
    (hrightValue : 0 < right.weightAt rightValue) :
    0 < Law.combine operation left.law right.law (operation leftValue rightValue) := by
  rw [← law_apply] at hleftValue hrightValue
  exact (mul_pos hleftValue hrightValue).trans_le
    (Law.mul_le_combine operation hleft.law_nonneg hright.law_nonneg leftValue rightValue)

theorem proper_point {weight : ℤ} (hweight : 0 < weight) (value : ℤ) :
    (point value weight).Proper := by
  have hvalue : (point value weight).weightAt value = weight := by
    rw [← law_apply, law_point, Finsupp.single_eq_same]
  have hmaximum : (point value weight).maximum = value := add_sub_cancel_right value 1
  constructor
  · intro other
    rw [← law_apply, law_point]
    exact Finsupp.single_nonneg.2 hweight.le other
  · exact hvalue.symm ▸ hweight
  · rwa [hmaximum, hvalue]

theorem Proper.add (hleft : left.Proper) (hright : right.Proper) : (left + right).Proper := by
  constructor
  · intro value
    rw [← law_apply, law_add]
    exact Law.combine_nonneg _ hleft.law_nonneg hright.law_nonneg value
  · rw [minimum_add, ← law_apply, law_add]
    exact hleft.combine_pos hright _ hleft.minimum_pos hright.minimum_pos
  · rw [maximum_add, ← law_apply, law_add]
    exact hleft.combine_pos hright _ hleft.maximum_pos hright.maximum_pos

theorem Proper.sub (hleft : left.Proper) (hright : right.Proper) : (left - right).Proper := by
  have hsum := hleft.add hright
  have hminimum : (left - right).minimum + 2 * right.minimum = (left + right).minimum := by
    change left.start - right.start + 2 * right.start = left.start + right.start
    ring
  have hmaximum : (left - right).maximum + 2 * right.minimum = (left + right).maximum := by
    change left.start - right.start + ((left + right).size : ℤ) - 1 + 2 * right.start =
      left.start + right.start + ((left + right).size : ℤ) - 1
    ring
  constructor
  · intro value
    rw [weightAt_sub]
    exact hsum.nonneg _
  · rw [weightAt_sub, hminimum]
    exact hsum.minimum_pos
  · rw [weightAt_sub, hmaximum]
    exact hsum.maximum_pos

/-- Both ends of a product are products of two ends. -/
theorem ends_mul (left right : Distribution) {motive : ℤ → Prop}
    (hcorner : ∀ leftEnd rightEnd,
      leftEnd = left.minimum ∨ leftEnd = left.maximum →
      rightEnd = right.minimum ∨ rightEnd = right.maximum → motive (leftEnd * rightEnd)) :
    motive (left * right).minimum ∧ motive (left * right).maximum := by
  have hfirst := hcorner left.minimum right.minimum (.inl rfl) (.inl rfl)
  have hsecond := hcorner left.minimum right.maximum (.inl rfl) (.inr rfl)
  have hthird := hcorner left.maximum right.minimum (.inr rfl) (.inl rfl)
  have hfourth := hcorner left.maximum right.maximum (.inr rfl) (.inr rfl)
  constructor
  · exact min_rec' motive (min_rec' motive hfirst hsecond) (min_rec' motive hthird hfourth)
  · rw [maximum_mul]
    exact max_rec' motive (max_rec' motive hfirst hsecond) (max_rec' motive hthird hfourth)

theorem Proper.mul (hleft : left.Proper) (hright : right.Proper) : (left * right).Proper := by
  have hends := ends_mul left right (motive := fun value => 0 < (left * right).weightAt value)
    fun leftEnd rightEnd hleftEnd hrightEnd => by
      rw [← law_apply, law_mul]
      apply hleft.combine_pos hright
      · obtain rfl | rfl := hleftEnd
        · exact hleft.minimum_pos
        · exact hleft.maximum_pos
      · obtain rfl | rfl := hrightEnd
        · exact hright.minimum_pos
        · exact hright.maximum_pos
  constructor
  · intro value
    rw [← law_apply, law_mul]
    exact Law.combine_nonneg _ hleft.law_nonneg hright.law_nonneg value
  · exact hends.1
  · exact hends.2

theorem Proper.scaled {distribution : Distribution} (hproper : distribution.Proper) {factor : ℤ}
    (hfactor : 0 < factor) : (distribution.scaled factor).Proper := by
  have hweight (value : ℤ) :
      (distribution.scaled factor).weightAt value = factor * distribution.weightAt value := by
    rw [← law_apply, law_scaled, Finsupp.smul_apply, law_apply, smul_eq_mul]
  constructor
  · intro value
    rw [hweight]
    exact mul_nonneg hfactor.le (hproper.nonneg value)
  · rw [hweight, minimum_scaled]
    exact mul_pos hfactor hproper.minimum_pos
  · rw [hweight, maximum_scaled]
    exact mul_pos hfactor hproper.maximum_pos

theorem Proper.merged (hleft : left.Proper) (hright : right.Proper) :
    (left.merged right).Proper := by
  have hweight (value : ℤ) :
      (left.merged right).weightAt value = left.weightAt value + right.weightAt value := by
    rw [← law_apply, law_merged, Finsupp.add_apply, law_apply, law_apply]
  constructor
  · intro value
    rw [hweight]
    exact add_nonneg (hleft.nonneg value) (hright.nonneg value)
  · rw [hweight, minimum_merged]
    obtain hmin | hmin := min_choice left.minimum right.minimum
    · rw [hmin]
      exact add_pos_of_pos_of_nonneg hleft.minimum_pos (hright.nonneg _)
    · rw [hmin]
      exact add_pos_of_nonneg_of_pos (hleft.nonneg _) hright.minimum_pos
  · rw [hweight, maximum_merged]
    obtain hmax | hmax := max_choice left.maximum right.maximum
    · rw [hmax]
      exact add_pos_of_pos_of_nonneg hleft.maximum_pos (hright.nonneg _)
    · rw [hmax]
      exact add_pos_of_nonneg_of_pos (hleft.nonneg _) hright.maximum_pos

theorem Proper.rollMore {die rolled : Distribution} (hdie : die.Proper) (hrolled : rolled.Proper)
    (more : ℕ) : (rollMore die rolled more).Proper := by
  induction more generalizing rolled with
  | zero => exact hrolled
  | succ more ih => exact ih (hrolled.add hdie)

theorem Proper.foldl_merged {part : Distribution} {parts : List Distribution} (hpart : part.Proper)
    (hparts : ∀ other ∈ parts, other.Proper) : (parts.foldl Distribution.merged part).Proper := by
  induction parts generalizing part with
  | nil => exact hpart
  | cons first parts ih =>
      obtain ⟨hfirst, hrest⟩ := List.forall_mem_cons.1 hparts
      exact ih (hpart.merged hfirst) hrest

theorem Proper.exists_pool {counts die : Distribution} (hcounts : counts.Proper)
    (hdie : die.Proper) : ∃ pooled, pool counts die = .ok pooled ∧ pooled.Proper := by
  obtain ⟨pooled, hpool⟩ := Distribution.exists_pool hcounts.minimum_pos.ne' die
  obtain ⟨part, parts, hparts, rfl⟩ := pool_eq_ok_iff.1 hpool
  have hproper : ∀ other ∈ part :: parts, other.Proper := by
    intro other hmem
    rw [← hparts] at hmem
    obtain ⟨entry, hentry, rfl⟩ := List.mem_map.1 hmem
    obtain ⟨hweight, hne⟩ := mem_live_iff.1 hentry
    have hpositive : 0 < entry.2 := hne.lt_of_le' (hweight ▸ hcounts.nonneg entry.1)
    exact (hdie.rollMore (proper_point one_pos 0) entry.1.toNat).scaled hpositive
  obtain ⟨hpart, hrest⟩ := List.forall_mem_cons.1 hproper
  exact ⟨_, hpool, hpart.foldl_merged hrest⟩

theorem exists_uniform_proper {faces : ℤ} (hfaces : 1 ≤ faces) :
    ∃ die, uniform faces = .ok die ∧ die.law = Law.ofDie (fun _ => 1) faces ∧ die.Proper := by
  obtain ⟨die, huniform, hminimum, hmaximum, hlaw⟩ := exists_uniform hfaces
  refine ⟨die, huniform, hlaw, ?_⟩
  have hweight (value : ℤ) :
      die.weightAt value = if 1 ≤ value ∧ value ≤ faces then 1 else 0 := by
    rw [← law_apply, hlaw, Law.ofDie_apply]
  constructor
  · intro value
    rw [hweight]
    split <;> decide
  · rw [hweight, hminimum, if_pos ⟨le_rfl, hfaces⟩]
    exact one_pos
  · rw [hweight, hmaximum, if_pos ⟨hfaces, le_rfl⟩]
    exact one_pos

end DiceOdds.Distribution
