import DiceOdds.Proofs.Agreement
import DiceOdds.Proofs.Distribution.Ends
import DiceOdds.Proofs.Render

/-!
# The odds of an accepted text

Whatever is read from a text has odds.  Its dice have faces, so no range is ever empty, and as some
count of every pool weighs something, no pool is without parts.  What comes out is proper: the range
is no wider than the results, and the weights alone tell two distributions apart.
-/

namespace DiceOdds.Expr

theorem Writable.faced {expr : Expr} (hwritable : expr.Writable) : expr.Faced := by
  induction expr with
  | number value => trivial
  | die shape => exact hwritable.1
  | binary operator left right ihLeft ihRight =>
      exact ⟨ihLeft hwritable.1, ihRight hwritable.2⟩

theorem parse_ofInt {value : ℤ} (hvalue : 0 ≤ value) : parse (.ofInt value) = .ok (number value) :=
  (Grammar.written_number hvalue).parse

theorem exists_odds_of_parse {text : Text} {expr : Expr} (hparse : parse text = .ok expr) :
    ∃ odds, expr.odds = .ok odds ∧ odds.Proper :=
  exists_odds (Grammar.writable_of_parse hparse).faced

theorem proper_of_parse {text : Text} {expr : Expr} {odds : Distribution}
    (hparse : parse text = .ok expr) (hodds : expr.odds = .ok odds) : odds.Proper := by
  obtain ⟨found, hfound, hproper⟩ := exists_odds_of_parse hparse
  obtain rfl : found = odds := Except.ok.inj (hfound.symm.trans hodds)
  exact hproper

/-- An accepted text has odds.  No weight is negative, the first and the last one are positive, and
so the odds of two accepted texts are equal as soon as they agree on every integer. -/
theorem odds_of_accepted_text {text : Text} {expr : Expr} (hparse : parse text = .ok expr) :
    ∃ odds, expr.odds = .ok odds ∧
      (∀ weight ∈ odds.weights, 0 ≤ weight) ∧
      0 < odds.weights.head odds.nonempty ∧ 0 < odds.weights.getLast odds.nonempty ∧
      0 < odds.totalWeight ∧
      0 < odds.weightAt odds.minimum ∧ 0 < odds.weightAt odds.maximum ∧
      ∀ other otherExpr otherOdds,
        parse other = .ok otherExpr → otherExpr.odds = .ok otherOdds →
          (odds = otherOdds ↔ ∀ value, odds.weightAt value = otherOdds.weightAt value) := by
  obtain ⟨odds, hodds, hproper⟩ := exists_odds_of_parse hparse
  refine ⟨odds, hodds, hproper.weights_nonneg, hproper.head_pos, hproper.getLast_pos,
    hproper.totalWeight_pos, hproper.minimum_pos, hproper.maximum_pos, ?_⟩
  intro other otherExpr otherOdds hother hotherOdds
  exact hproper.eq_iff_weightAt (proper_of_parse hother hotherOdds)

/-- `(d3-2)d2-d2`: at most one die, if any at all, less another. -/
def poolLessDie : Expr :=
  binary .sub
    (binary .mul (binary .sub (die { faces := 3 }) (number 2)) (die { faces := 2 }))
    (die { faces := 2 })

theorem odds_of_poolLessDie :
    parse (.ofString "(d3-2)d2-d2") = .ok poolLessDie ∧
      ∃ odds, poolLessDie.odds = .ok odds ∧ odds.minimum = -1 ∧ odds.weights = [2, 3, 2, 1] ∧
        (∀ weight ∈ odds.weights, 0 ≤ weight) ∧ 0 < odds.totalWeight ∧
        0 < odds.weightAt odds.minimum ∧ 0 < odds.weightAt odds.maximum := by
  have hparse : parse (.ofString "(d3-2)d2-d2") = .ok poolLessDie := by decide
  have hweights : poolLessDie.odds = .ok ⟨-1, [2, 3, 2, 1], List.cons_ne_nil _ _⟩ := by decide
  obtain ⟨odds, hodds, hnonneg, -, -, htotal, hminimum, hmaximum, -⟩ :=
    odds_of_accepted_text hparse
  obtain rfl := Except.ok.inj (hweights.symm.trans hodds)
  exact ⟨hparse, _, hodds, rfl, rfl, hnonneg, htotal, hminimum, hmaximum⟩

end DiceOdds.Expr
