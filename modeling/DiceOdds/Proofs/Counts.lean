import DiceOdds.Proofs.Agreement
import DiceOdds.Proofs.Distribution.Algebra
import DiceOdds.Proofs.Distribution.Mixture
import DiceOdds.Proofs.Render

/-!
# Pools of independent counts

To roll as many dice as two independent counts call for together is to roll two pools and to add
them up.  The laws agree because so many dice and so many more are that many dice in all, and the
ranges agree because no weight is cancelled where counts are added: the sums that weigh anything are
the sums of counts that do.
-/

namespace DiceOdds

namespace Distribution

variable {counts left right : Distribution}

/-- Numbers of dice: none is negative, no weight is, and some weight is positive. -/
structure CountsDice (counts : Distribution) : Prop where
  minimum_nonneg : 0 ≤ counts.minimum
  nonneg : ∀ weight ∈ counts.weights, 0 ≤ weight
  exists_pos : ∃ weight ∈ counts.weights, 0 < weight

theorem countsDice_point {count : ℤ} (hcount : 0 ≤ count) : (point count).CountsDice := by
  refine ⟨hcount, ?_, 1, List.mem_singleton.2 rfl, one_pos⟩
  intro weight hmem
  rw [List.mem_singleton.1 hmem]
  exact zero_le_one

theorem CountsDice.law_nonneg (hcounts : counts.CountsDice) : 0 ≤ counts.law := by
  intro count
  rw [law_apply]
  by_contra hneg
  have hentry := mem_outcomes_of_weightAt_ne_zero (not_le.1 hneg).ne
  have hmem : counts.weightAt count ∈ counts.weights := by
    rw [← map_snd_outcomes]
    exact List.mem_map_of_mem hentry
  exact hneg (hcounts.nonneg _ hmem)

theorem CountsDice.count_nonneg (hcounts : counts.CountsDice) {count : ℤ}
    (hcount : counts.weightAt count ≠ 0) : 0 ≤ count :=
  hcounts.minimum_nonneg.trans (mem_range_of_weightAt_ne_zero hcount).1

theorem CountsDice.exists_pool (hcounts : counts.CountsDice) (die : Distribution) :
    ∃ pooled, counts.pool die = .ok pooled := by
  obtain ⟨weight, hmem, hpos⟩ := hcounts.exists_pos
  obtain ⟨count, rfl⟩ := exists_weightAt_of_mem hmem
  exact Distribution.exists_pool hpos.ne' die

/-- A sum of two counts weighs something exactly if both counts can. -/
theorem CountsDice.weightAt_add_ne_zero_iff (hleft : left.CountsDice) (hright : right.CountsDice)
    {count : ℤ} :
    (left + right).weightAt count ≠ 0 ↔
      ∃ leftCount rightCount, left.weightAt leftCount ≠ 0 ∧ right.weightAt rightCount ≠ 0 ∧
        leftCount + rightCount = count := by
  rw [← law_apply, law_add]
  simp only [← law_apply]
  constructor
  · exact Law.exists_of_combine_ne_zero
  · rintro ⟨leftCount, rightCount, hleftCount, hrightCount, rfl⟩
    have hproduct : 0 < left.law leftCount * right.law rightCount :=
      mul_pos ((hleft.law_nonneg leftCount).lt_of_ne' hleftCount)
        ((hright.law_nonneg rightCount).lt_of_ne' hrightCount)
    exact (hproduct.trans_le (Law.mul_le_combine (· + ·) hleft.law_nonneg hright.law_nonneg
      leftCount rightCount)).ne'

theorem CountsDice.exists_pool_add (hleft : left.CountsDice) (hright : right.CountsDice)
    (die : Distribution) : ∃ pooled, (left + right).pool die = .ok pooled := by
  obtain ⟨leftWeight, hleftMem, hleftPos⟩ := hleft.exists_pos
  obtain ⟨rightWeight, hrightMem, hrightPos⟩ := hright.exists_pos
  obtain ⟨leftCount, rfl⟩ := exists_weightAt_of_mem hleftMem
  obtain ⟨rightCount, rfl⟩ := exists_weightAt_of_mem hrightMem
  exact Distribution.exists_pool ((hleft.weightAt_add_ne_zero_iff hright).2
    ⟨leftCount, rightCount, hleftPos.ne', hrightPos.ne', rfl⟩) die

theorem CountsDice.multiples_add (hleft : left.CountsDice) (hright : right.CountsDice)
    (limit : ℤ) :
    (left + right).multiples limit =
      Set.image2 (· + ·) (left.multiples limit) (right.multiples limit) := by
  have hsplit {leftCount rightCount : ℤ} (hleftCount : left.weightAt leftCount ≠ 0)
      (hrightCount : right.weightAt rightCount ≠ 0) :
      (leftCount + rightCount).toNat * limit =
        leftCount.toNat * limit + rightCount.toNat * limit := by
    rw [Int.toNat_add (hleft.count_nonneg hleftCount) (hright.count_nonneg hrightCount),
      Nat.cast_add, add_mul]
  ext bound
  constructor
  · rintro ⟨count, hcount, rfl⟩
    obtain ⟨leftCount, rightCount, hleftCount, hrightCount, rfl⟩ :=
      (hleft.weightAt_add_ne_zero_iff hright).1 hcount
    exact ⟨_, ⟨leftCount, hleftCount, rfl⟩, _, ⟨rightCount, hrightCount, rfl⟩,
      (hsplit hleftCount hrightCount).symm⟩
  · rintro ⟨_, ⟨leftCount, hleftCount, rfl⟩, _, ⟨rightCount, hrightCount, rfl⟩, rfl⟩
    have hcount : (left + right).weightAt (leftCount + rightCount) ≠ 0 :=
      (hleft.weightAt_add_ne_zero_iff hright).2
        ⟨leftCount, rightCount, hleftCount, hrightCount, rfl⟩
    exact ⟨leftCount + rightCount, hcount, (hsplit hleftCount hrightCount).symm⟩

/-- The pool of a sum of counts is the sum of their pools. -/
theorem CountsDice.pool_add (hleft : left.CountsDice) (hright : right.CountsDice)
    {die leftPool rightPool : Distribution} (hleftPool : left.pool die = .ok leftPool)
    (hrightPool : right.pool die = .ok rightPool) :
    (left + right).pool die = .ok (leftPool + rightPool) := by
  obtain ⟨pooled, hpool⟩ := hleft.exists_pool_add hright die
  have hminimum := isLeast_minimum_of_pool hpool
  have hmaximum := isGreatest_maximum_of_pool hpool
  rw [hleft.multiples_add hright] at hminimum hmaximum
  have hminima := (isLeast_minimum_of_pool hleftPool).image2
    (fun _ => add_left_mono) (fun _ => add_right_mono) (isLeast_minimum_of_pool hrightPool)
  have hmaxima := (isGreatest_maximum_of_pool hleftPool).image2
    (fun _ => add_left_mono) (fun _ => add_right_mono) (isGreatest_maximum_of_pool hrightPool)
  have hcounts {counts : Distribution} (hcounts : counts.CountsDice) (count : ℤ)
      (hcount : counts.law count ≠ 0) : 0 ≤ count :=
    hcounts.count_nonneg (law_apply counts count ▸ hcount)
  have hlaw : pooled.law = (leftPool + rightPool).law := by
    calc pooled.law
        = Law.pool die.law (Law.combine (· + ·) left.law right.law) := by
          rw [law_of_pool hpool, law_add]
      _ = Law.combine (· + ·) (Law.pool die.law left.law) (Law.pool die.law right.law) :=
          Law.pool_combine_add die.law (hcounts hleft) (hcounts hright)
      _ = (leftPool + rightPool).law := by
          rw [law_add, law_of_pool hleftPool, law_of_pool hrightPool]
  rw [hpool]
  congr 1
  apply eq_of_law_of_range hlaw
  rw [range, range, hminimum.unique hminima, hmaximum.unique hmaxima, minimum_add, maximum_add]

theorem point_add_point (left right : ℤ) : point left + point right = point (left + right) := by
  apply (combines_add (point left) (point right)).unique
  constructor
  · rw [law_point, law_point, law_point, Law.combine_single_single, one_mul]
  · intro interval _
    simp [range_point]

end Distribution

/-! ### Pools of plain numbers of dice -/

namespace Expr

open DiceOdds.Distribution Grammar

/-- `ndF` -/
def pooled (count faces : ℤ) : Text :=
  .ofInt count ++ .ofString "d" ++ .ofInt faces

/-- `(n+m)dF` -/
def pooledTogether (first second faces : ℤ) : Text :=
  .ofString "(" ++ .ofInt first ++ .ofString "+" ++ .ofInt second ++ .ofString ")d" ++ .ofInt faces

/-- `ndF + mdF` -/
def pooledApart (first second faces : ℤ) : Text :=
  pooled first faces ++ .ofString " + " ++ pooled second faces

/-- The text can be read, and its odds are these. -/
def HasOdds (text : Text) (odds : Distribution) : Prop :=
  ∃ expr, parse text = .ok expr ∧ expr.odds = .ok odds

variable {count first second faces : ℤ}

theorem written_pooled (hcount : 0 ≤ count) (hfaces : 1 ≤ faces) :
    Written .term (pooled count faces) (binary .mul (number count) (die { faces })) := by
  have hwritten := written_compact hcount hfaces
  simpa [pooled, Text.ofString] using hwritten

theorem parse_pooledApart (hfirst : 0 ≤ first) (hsecond : 0 ≤ second) (hfaces : 1 ≤ faces) :
    parse (pooledApart first second faces) =
      .ok (binary .add (binary .mul (number first) (die { faces }))
        (binary .mul (number second) (die { faces }))) := by
  have hleft : Written (.ofOperator .add) (pooled first faces) _ :=
    (written_pooled hfirst hfaces).weaken (by decide)
  have hright : Written (.rightOf .add) (pooled second faces) _ := written_pooled hsecond hfaces
  exact (hleft.binary hright).parse

theorem parse_pooledTogether (hfirst : 0 ≤ first) (hsecond : 0 ≤ second) (hfaces : 1 ≤ faces) :
    parse (pooledTogether first second faces) =
      .ok (binary .mul (binary .add (number first) (number second)) (die { faces })) := by
  have hleft : Written (.ofOperator .add) (Text.ofInt first) _ :=
    (written_number hfirst).weaken (by decide)
  have hright : Written (.rightOf .add) (Text.ofInt second) _ :=
    (written_number hsecond).weaken (by decide)
  have hcount : Written .term _ _ := (hleft.unspaced hright).bracketed.weaken (by decide)
  have hpool := (hcount.pool hfaces).parse
  simpa [pooledTogether, Text.ofString, Operator.sign] using hpool

/-- So many dice and so many more are rolled in one pool or in two, with the same odds. -/
theorem exists_hasOdds_pooled (hfirst : 0 ≤ first) (hsecond : 0 ≤ second) (hfaces : 1 ≤ faces) :
    ∃ odds, HasOdds (pooledTogether first second faces) odds ∧
      HasOdds (pooledApart first second faces) odds ∧
      HasOdds (pooled (first + second) faces) odds := by
  obtain ⟨die, hdie, -⟩ := exists_uniform hfaces
  have hfirstCount := countsDice_point hfirst
  have hsecondCount := countsDice_point hsecond
  obtain ⟨firstPool, hfirstPool⟩ := hfirstCount.exists_pool die
  obtain ⟨secondPool, hsecondPool⟩ := hsecondCount.exists_pool die
  have hpool := hfirstCount.pool_add hsecondCount hfirstPool hsecondPool
  have hpooled {count : ℤ} {odds : Distribution} (hodds : (point count).pool die = .ok odds) :
      (binary .mul (number count) (.die { faces })).odds = .ok odds :=
    (odds_pool rfl hdie).trans hodds
  refine ⟨firstPool + secondPool, ?_, ?_, ?_⟩
  · refine ⟨_, parse_pooledTogether hfirst hsecond hfaces, ?_⟩
    have hcount : (binary .add (number first) (number second)).odds =
        .ok (point first + point second) := rfl
    exact (odds_pool hcount hdie).trans hpool
  · refine ⟨_, parse_pooledApart hfirst hsecond hfaces, ?_⟩
    exact odds_plain nofun (hpooled hfirstPool) (hpooled hsecondPool)
  · refine ⟨_, (written_pooled (add_nonneg hfirst hsecond) hfaces).parse, ?_⟩
    rw [point_add_point] at hpool
    exact hpooled hpool

/-- Where counts are added, their pools are added, whatever the die.  In particular `(n+m)dF` has
the odds of `ndF + mdF`, with the sum written out or in one numeral. -/
theorem pools_of_added_counts :
    (∀ left right : Distribution, left.CountsDice → right.CountsDice → ∀ die,
      ∃ leftPool rightPool, left.pool die = .ok leftPool ∧ right.pool die = .ok rightPool ∧
        (left + right).pool die = .ok (leftPool + rightPool)) ∧
    (∀ first second faces : ℤ, 0 ≤ first → 0 ≤ second → 1 ≤ faces →
      ∃ odds, HasOdds (pooledTogether first second faces) odds ∧
        HasOdds (pooledApart first second faces) odds ∧
        HasOdds (pooled (first + second) faces) odds) := by
  constructor
  · intro left right hleft hright die
    obtain ⟨leftPool, hleftPool⟩ := hleft.exists_pool die
    obtain ⟨rightPool, hrightPool⟩ := hright.exists_pool die
    exact ⟨leftPool, rightPool, hleftPool, hrightPool,
      hleft.pool_add hright hleftPool hrightPool⟩
  · intro first second faces hfirst hsecond hfaces
    exact exists_hasOdds_pooled hfirst hsecond hfaces

/-- No die or one. -/
def noneOrOne : Distribution :=
  ⟨0, [1, 1], fun hnil => List.cons_ne_nil _ _ hnil⟩

/-- No die or, twice as likely, two. -/
def noneOrTwo : Distribution :=
  ⟨0, [1, 0, 2], by decide⟩

/-- A gap in the counts and a die below zero change nothing. -/
theorem pool_noneOrOne_add_noneOrTwo :
    noneOrOne.CountsDice ∧ noneOrTwo.CountsDice ∧
      (noneOrOne + noneOrTwo).pool ⟨-1, [1, 0, 3], by decide⟩ =
        .ok (⟨-1, [1, 1, 3], by decide⟩ + ⟨-2, [2, 0, 13, 0, 18], by decide⟩) := by
  have hone : noneOrOne.CountsDice := ⟨by decide, by decide, 1, by decide, one_pos⟩
  have htwo : noneOrTwo.CountsDice := ⟨by decide, by decide, 1, by decide, one_pos⟩
  refine ⟨hone, htwo, ?_⟩
  obtain ⟨onePool, twoPool, honePool, htwoPool, hpool⟩ :=
    pools_of_added_counts.1 noneOrOne noneOrTwo hone htwo ⟨-1, [1, 0, 3], by decide⟩
  have honeWeights : noneOrOne.pool ⟨-1, [1, 0, 3], by decide⟩ =
      .ok ⟨-1, [1, 1, 3], by decide⟩ := by decide
  have htwoWeights : noneOrTwo.pool ⟨-1, [1, 0, 3], by decide⟩ =
      .ok ⟨-2, [2, 0, 13, 0, 18], by decide⟩ := by decide
  obtain rfl := Except.ok.inj (honeWeights.symm.trans honePool)
  obtain rfl := Except.ok.inj (htwoWeights.symm.trans htwoPool)
  exact hpool

end Expr

end DiceOdds
