import DiceOdds.Proofs.Law

/-!
# Equal dice

One more die adds up a window of the ways to roll the others, as wide as the die has faces.  From
one sum to the next the window gains the ways at its front and loses the ways behind its back.  The
ways are the same on both sides of the middle, so while the front of the window is nearer to the
middle than what it leaves behind, the sums of one more die grow.
-/

namespace DiceOdds.Law

theorem combine_single_add_apply {R : Type*} [CommSemiring R] (value : ℤ) (weight : R)
    (law : Law R) (sum : ℤ) :
    combine (· + ·) (Finsupp.single value weight) law sum = weight * law (sum - value) := by
  have hmove := Finsupp.mapDomain_apply (add_right_injective value) law (sum - value)
  rw [add_sub_cancel] at hmove
  rw [combine_single_left, Finsupp.smul_apply, hmove, smul_eq_mul]

variable {faces count : ℕ} {sum lower upper : ℤ}

/-- The ways to roll every sum with so many dice. -/
noncomputable def equalDice (faces count : ℕ) : Law ℤ :=
  power (ofDie (fun _ => 1) faces) count

theorem equalDice_zero_apply (faces : ℕ) (sum : ℤ) :
    equalDice faces 0 sum = if sum = 0 then 1 else 0 := by
  rw [equalDice, power, Finsupp.single_apply]
  simp only [eq_comm]

theorem equalDice_succ_apply (faces count : ℕ) (sum : ℤ) :
    equalDice faces (count + 1) sum =
      ∑ face ∈ Finset.range faces, equalDice faces count (sum - (face + 1)) := by
  have hdie : ofDie (fun _ => (1 : ℤ)) faces =
      ∑ face ∈ Finset.range faces, Finsupp.single (face + 1 : ℤ) 1 := by
    rw [ofDie, one_smul, Int.Icc_eq_finset_map, Finset.sum_map, add_sub_cancel_right,
      Int.toNat_natCast]
    simp only [Function.Embedding.trans_apply, Nat.castEmbedding_apply, addLeftEmbedding_apply,
      add_comm]
  calc equalDice faces (count + 1) sum
      = combine (· + ·) (ofDie (fun _ => 1) faces) (equalDice faces count) sum := rfl
    _ = ∑ face ∈ Finset.range faces,
          combine (· + ·) (Finsupp.single (face + 1 : ℤ) 1) (equalDice faces count) sum := by
        rw [hdie, map_sum, LinearMap.sum_apply, Finsupp.finsetSum_apply]
    _ = ∑ face ∈ Finset.range faces, equalDice faces count (sum - (face + 1)) := by
        simp only [combine_single_add_apply, one_mul]

theorem equalDice_of_lt (hsum : sum < count) : equalDice faces count sum = 0 := by
  induction count generalizing sum with
  | zero => rw [equalDice_zero_apply, if_neg (by omega)]
  | succ count ih =>
      rw [equalDice_succ_apply]
      apply Finset.sum_eq_zero
      intro face _
      exact ih (by omega)

/-- A die that is turned over shows its other face, and the two faces add up to the same for all
dice. -/
theorem equalDice_mirror (faces count : ℕ) (sum : ℤ) :
    equalDice faces count (count * (faces + 1) - sum) = equalDice faces count sum := by
  induction count generalizing sum with
  | zero => simp only [equalDice_zero_apply, Nat.cast_zero, zero_mul, zero_sub, neg_eq_zero]
  | succ count ih =>
      rw [equalDice_succ_apply, equalDice_succ_apply, ← Finset.sum_range_reflect]
      apply Finset.sum_congr rfl
      intro face hface
      rw [Finset.mem_range] at hface
      rw [← ih]
      congr 1
      push_cast [show 1 ≤ faces by omega, show face ≤ faces - 1 by omega]
      ring

/-- The window moves by one. -/
theorem equalDice_succ_add_one (faces count : ℕ) (sum : ℤ) :
    equalDice faces (count + 1) (sum + 1) - equalDice faces (count + 1) sum =
      equalDice faces count sum - equalDice faces count (sum - faces) := by
  calc equalDice faces (count + 1) (sum + 1) - equalDice faces (count + 1) sum
      = ∑ face ∈ Finset.range faces, (equalDice faces count (sum - face) -
          equalDice faces count (sum - (face + 1 : ℕ))) := by
        rw [equalDice_succ_apply, equalDice_succ_apply, ← Finset.sum_sub_distrib]
        simp only [add_sub_add_right_eq_sub, Nat.cast_succ]
    _ = equalDice faces count (sum - (0 : ℕ)) - equalDice faces count (sum - faces) :=
        Finset.sum_range_sub' (fun face : ℕ => equalDice faces count (sum - face)) faces
    _ = equalDice faces count sum - equalDice faces count (sum - faces) := by
        rw [Nat.cast_zero, sub_zero]

/-! ### Growth up to the middle -/

/-- Up to the middle, every sum has more ways than the one before. -/
def Grows (faces count : ℕ) : Prop :=
  ∀ sum : ℤ, count ≤ sum → 2 * sum ≤ count * (faces + 1) →
    equalDice faces count (sum - 1) < equalDice faces count sum

/-- Up to the middle of one more die, the front of the window is ahead of what it leaves behind. -/
def Leads (faces count : ℕ) : Prop :=
  ∀ sum : ℤ, count ≤ sum → 2 * (sum + 1) ≤ (count + 1) * (faces + 1) →
    equalDice faces count (sum - faces) < equalDice faces count sum

theorem leads_one (faces : ℕ) : Leads faces 1 := by
  intro sum hcount hsum
  have hsingle (value : ℤ) :
      equalDice faces 1 value = if 1 ≤ value ∧ value ≤ faces then 1 else 0 := by
    rw [equalDice, power, power, combine_comm add_comm, combine_add_single_zero, ofDie_apply]
  rw [hsingle, hsingle, if_neg (by omega), if_pos (by omega)]
  exact one_pos

theorem Leads.grows (hleads : Leads faces count) : Grows faces (count + 1) := by
  intro sum hcount hsum
  have hwindow := equalDice_succ_add_one faces count (sum - 1)
  have hlead := hleads (sum - 1) (by omega) (by push_cast at hsum; omega)
  rw [sub_add_cancel] at hwindow
  omega

theorem Grows.lt (hgrows : Grows faces count) (hlt : lower < upper) (hcount : count ≤ upper)
    (hupper : 2 * upper ≤ count * (faces + 1)) :
    equalDice faces count lower < equalDice faces count upper := by
  induction upper, hcount using Int.leInduction with
  | base =>
      -- `upper` is all ones, and there is no way to roll less
      have hfirst := hgrows count le_rfl hupper
      rwa [equalDice_of_lt (by omega), ← equalDice_of_lt hlt] at hfirst
  | succ upper hcount ih =>
      have hnext := hgrows (upper + 1) (by omega) hupper
      rw [add_sub_cancel_right] at hnext
      obtain hbefore | rfl := (Int.lt_add_one_iff.1 hlt).lt_or_eq
      · exact (ih hbefore (by omega)).trans hnext
      · exact hnext

/-- A front past the middle has as many ways as its mirror image, and that is still nearer to the
middle than what the window leaves behind. -/
theorem Grows.leads (hgrows : Grows faces count) (hfaces : 1 ≤ faces) (hcount : 1 ≤ count) :
    Leads faces count := by
  intro sum hfront hsum
  obtain hbefore | hpast := le_or_gt (2 * sum) (count * (faces + 1))
  · exact hgrows.lt (by omega) hfront hbefore
  · -- the mirror image is not below all ones, since the window is no wider than the range
    have hwide : 0 ≤ ((count : ℤ) - 1) * (faces - 1) := mul_nonneg (by omega) (by omega)
    rw [← equalDice_mirror faces count sum]
    apply hgrows.lt <;> linarith

/-- One die is flat, but its window leads, and so growth starts with the second die. -/
theorem grows_of_two_le (hfaces : 1 ≤ faces) (hcount : 2 ≤ count) : Grows faces count := by
  induction count, hcount using Nat.le_induction with
  | base => exact (leads_one faces).grows
  | succ count hcount ih => exact (ih.leads hfaces (by omega)).grows

/-- The sum in the middle, or the lower of two. -/
def middle (faces count : ℕ) : ℤ :=
  count * (faces + 1) / 2

theorem le_middle (hfaces : 1 ≤ faces) (count : ℕ) : count ≤ middle faces count := by
  have hends : (count : ℤ) * 2 ≤ count * (faces + 1) :=
    mul_le_mul_of_nonneg_left (by omega) (by omega)
  rw [middle]
  omega

theorem middle_le (hfaces : 1 ≤ faces) (count : ℕ) : middle faces count ≤ count * faces := by
  have hends : (count : ℤ) * 1 ≤ count * faces := mul_le_mul_of_nonneg_left (by omega) (by omega)
  rw [middle, mul_add_one]
  omega

theorem Grows.lt_middle (hgrows : Grows faces count) (hfaces : 1 ≤ faces)
    (hsum : sum < middle faces count) :
    equalDice faces count sum < equalDice faces count (middle faces count) := by
  have hmiddle : 2 * middle faces count ≤ count * (faces + 1) := by
    rw [middle]
    omega
  exact hgrows.lt hsum (le_middle hfaces count) hmiddle

theorem Grows.le_middle (hgrows : Grows faces count) (hfaces : 1 ≤ faces) (sum : ℤ) :
    equalDice faces count sum ≤ equalDice faces count (middle faces count) := by
  obtain hbelow | rfl | habove := lt_trichotomy sum (middle faces count)
  · exact (hgrows.lt_middle hfaces hbelow).le
  · rfl
  · have hmirror : count * (faces + 1) - sum ≤ middle faces count := by
      rw [middle] at habove ⊢
      omega
    rw [← equalDice_mirror faces count sum]
    obtain hbelow | hmiddle := hmirror.lt_or_eq
    · exact (hgrows.lt_middle hfaces hbelow).le
    · rw [hmiddle]

end DiceOdds.Law
