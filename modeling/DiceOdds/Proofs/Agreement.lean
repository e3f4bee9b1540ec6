import DiceOdds.Expr.Odds
import DiceOdds.Proofs.Distribution.Proper
import DiceOdds.Proofs.Rolling

/-!
# Odds and rolls agree

Without looking at a single roll, the odds of a tree count the scripts of draws that lead to every
result.  A difference is the exception: its odds are counted as if the right side weighed nothing
past its minimum.
-/

namespace DiceOdds

namespace Expr

/-- All dice of the tree have a face. -/
def Faced : Expr → Prop
  | number _ => True
  | die shape => 1 ≤ shape.faces
  | binary _ left right => left.Faced ∧ right.Faced

/-- Only a single integer is ever subtracted. -/
def SubtractsPoints : Expr → Prop
  | number _ => True
  | die _ => True
  | binary operator left right =>
      left.SubtractsPoints ∧ right.SubtractsPoints ∧
        (operator = .sub → ∃ point, right.odds = .ok point ∧ point.size = 1)

/-- A tree is a number, a die, a pool or any other operation. -/
@[elab_as_elim]
theorem poolInduction {motive : Expr → Prop} (number : ∀ value, motive (number value))
    (die : ∀ shape, motive (die shape))
    (pool : ∀ count shape, motive count → motive (binary .mul count (.die shape)))
    (plain : ∀ operator left right,
      (∀ shape, operator = .mul → right = .die shape → False) → motive left → motive right →
        motive (binary operator left right))
    (expr : Expr) : motive expr := by
  induction expr using roll.induct with
  | case1 value => exact number value
  | case2 shape => exact die shape
  | case3 count shape ih => exact pool count shape ih
  | case4 operator left right hplain ihLeft ihRight =>
      exact plain operator left right hplain ihLeft ihRight

end Expr

namespace Distribution

/-- What an operator does to the odds of its sides, pools apart. -/
def operate : Operator → Distribution → Distribution → Distribution
  | .add, left, right => left + right
  | .sub, left, right => left - right
  | .mul, left, right => left * right

theorem law_operate {operator : Operator} {right : Distribution}
    (hright : operator = .sub → right.size = 1) (left : Distribution) :
    (operate operator left right).law = Law.combine operator.apply left.law right.law := by
  cases operator with
  | add => exact law_add left right
  | sub => exact law_sub (hright rfl) left
  | mul => exact law_mul left right

theorem Proper.operate {left right : Distribution} (hleft : left.Proper) (hright : right.Proper)
    (operator : Operator) : (operate operator left right).Proper := by
  cases operator with
  | add => exact hleft.add hright
  | sub => exact hleft.sub hright
  | mul => exact hleft.mul hright

end Distribution

namespace Expr

open DiceOdds.Distribution

theorem odds_pool {count : Expr} {shape : Die} {counts die : Distribution}
    (hcount : count.odds = .ok counts) (hdie : uniform shape.faces = .ok die) :
    (binary .mul count (.die shape)).odds = counts.pool die := by
  rw [odds, hcount, hdie]
  rfl

theorem odds_plain {operator : Operator} {left right : Expr} {leftOdds rightOdds : Distribution}
    (hplain : ∀ shape, operator = .mul → right = .die shape → False)
    (hleft : left.odds = .ok leftOdds) (hright : right.odds = .ok rightOdds) :
    (binary operator left right).odds = .ok (operate operator leftOdds rightOdds) := by
  cases operator with
  | add | sub =>
      rw [odds, hleft, hright]
      rfl
  | mul =>
      rw [odds, hleft, hright]
      · rfl
      · exact fun shape hshape => hplain shape rfl hshape

/-- A tree with faces on all its dice has odds, and both ends of their range are possible. -/
theorem exists_odds {expr : Expr} (hfaced : expr.Faced) :
    ∃ odds, expr.odds = .ok odds ∧ odds.Proper := by
  induction expr using poolInduction with
  | number value => exact ⟨point value, rfl, proper_point one_pos value⟩
  | die shape =>
      obtain ⟨die, hdie, -, hproper⟩ := exists_uniform_proper hfaced
      exact ⟨die, hdie, hproper⟩
  | pool count shape ih =>
      obtain ⟨counts, hcount, hcounts⟩ := ih hfaced.1
      obtain ⟨die, hdie, -, hproper⟩ := exists_uniform_proper hfaced.2
      rw [odds_pool hcount hdie]
      exact hcounts.exists_pool hproper
  | plain operator left right hplain ihLeft ihRight =>
      obtain ⟨leftOdds, hleft, hleftProper⟩ := ihLeft hfaced.1
      obtain ⟨rightOdds, hright, hrightProper⟩ := ihRight hfaced.2
      exact ⟨_, odds_plain hplain hleft hright, hleftProper.operate hrightProper operator⟩

/-- The odds have the law that counts every draw for one. -/
theorem law_odds {expr : Expr} {odds : Distribution} (hfaced : expr.Faced)
    (hpoints : expr.SubtractsPoints) (hodds : expr.odds = .ok odds) :
    odds.law = expr.law fun _ => 1 := by
  induction expr using poolInduction generalizing odds with
  | number value =>
      obtain rfl := Except.ok.inj hodds
      rw [law_point, law_number]
  | die shape =>
      obtain ⟨die, hdie, -, -, hlaw⟩ := exists_uniform hfaced
      obtain rfl := Except.ok.inj (hdie.symm.trans hodds)
      rw [hlaw, law_die]
  | pool count shape ih =>
      obtain ⟨counts, hcount, -⟩ := exists_odds hfaced.1
      obtain ⟨die, hdie, -, -, hlaw⟩ := exists_uniform hfaced.2
      rw [odds_pool hcount hdie] at hodds
      rw [law_of_pool hodds, hlaw, ih hfaced.1 hpoints.1 hcount, law_pool]
  | plain operator left right hplain ihLeft ihRight =>
      obtain ⟨leftOdds, hleft, -⟩ := exists_odds hfaced.1
      obtain ⟨rightOdds, hright, -⟩ := exists_odds hfaced.2
      obtain ⟨hleftPoints, hrightPoints, hpoint⟩ := hpoints
      have hsize (hsub : operator = .sub) : rightOdds.size = 1 := by
        obtain ⟨point, hpoint, hsize⟩ := hpoint hsub
        rwa [Except.ok.inj (hpoint.symm.trans hright)] at hsize
      obtain rfl := Except.ok.inj ((odds_plain hplain hleft hright).symm.trans hodds)
      rw [law_operate hsize, ihLeft hfaced.1 hleftPoints hleft,
        ihRight hfaced.2 hrightPoints hright, law_binary _ hplain]

/-- The weight of every integer is the number of scripts on which the tree rolls it, and the ends of
the range are rolled on some. -/
theorem weightAt_odds_eq_ncard_scripts (expr : Expr) (hfaced : expr.Faced)
    (hpoints : expr.SubtractsPoints) :
    ∃ odds, expr.odds = .ok odds ∧
      (∀ value, (expr.roll.scripts value).Finite ∧
        odds.weightAt value = (expr.roll.scripts value).ncard) ∧
      (expr.roll.scripts odds.minimum).Nonempty ∧ (expr.roll.scripts odds.maximum).Nonempty := by
  obtain ⟨odds, hodds, hproper⟩ := exists_odds hfaced
  have hcount (value : ℤ) : odds.weightAt value = (expr.roll.scripts value).ncard := by
    rw [Draws.ncard_scripts, ← law_apply, law_odds hfaced hpoints hodds]
    rfl
  have hreached {value : ℤ} (hvalue : 0 < odds.weightAt value) :
      (expr.roll.scripts value).Nonempty := by
    rw [hcount] at hvalue
    exact Set.nonempty_of_ncard_ne_zero (by omega)
  exact ⟨odds, hodds, fun value => ⟨Draws.scripts_finite _ _, hcount value⟩,
    hreached hproper.minimum_pos, hreached hproper.maximum_pos⟩

/-- `(d2)d2`: one die or two dice, as a die says. -/
def nestedPool : Expr :=
  binary .mul (die { faces := 2 }) (die { faces := 2 })

/-- There are two ways to roll a one with `(d2)d2 - 1`. -/
theorem ncard_scripts_nestedPool_sub_one :
    (binary .sub nestedPool (number 1)).Faced ∧
      (binary .sub nestedPool (number 1)).SubtractsPoints ∧
      ((binary .sub nestedPool (number 1)).roll.scripts 1).ncard = 2 := by
  have hfaced : (binary .sub nestedPool (number 1)).Faced :=
    ⟨⟨one_le_two, one_le_two⟩, trivial⟩
  have hpoints : (binary .sub nestedPool (number 1)).SubtractsPoints :=
    ⟨⟨trivial, trivial, nofun⟩, trivial, fun _ => ⟨point 1, rfl, rfl⟩⟩
  obtain ⟨odds, hodds, hcount, -⟩ :=
    weightAt_odds_eq_ncard_scripts (binary .sub nestedPool (number 1)) hfaced hpoints
  have hweights : (binary .sub nestedPool (number 1)).odds =
      .ok ⟨0, [1, 2, 2, 1], List.cons_ne_nil _ _⟩ := by
    decide
  obtain rfl := Except.ok.inj (hweights.symm.trans hodds)
  exact ⟨hfaced, hpoints, Nat.cast_injective (hcount 1).2.symm⟩

end Expr

end DiceOdds
