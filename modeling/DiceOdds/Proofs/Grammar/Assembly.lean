import DiceOdds.Expr.Assembly
import DiceOdds.Proofs.Grammar

/-!
# Explicit streams assemble

Explicit notation has no gaps, so the assembly of a derived stream never meets an obstacle and gives
the tree that the grammar says.  The look ahead counts brackets only, which is enough because every
part of a derived stream closes the groups that it opens.
-/

namespace DiceOdds.Grammar

open Assembly

/-- The operator that the tokens start with. -/
def leadingOperator? (tokens : List Token) : Option Operator :=
  tokens.head?.bind (·.kind.operator?)

/-! ### The look ahead -/

/-- Inside a group the look ahead passes over everything that is derived. -/
theorem nextOperatorAt?_append_of_derives {style : Style} {part : Part} {tokens : List Token}
    {expr : Expr} (hderives : Derives style part tokens expr) (depth : Nat) (rest : List Token) :
    nextOperatorAt? (depth + 1) (tokens ++ rest) = nextOperatorAt? (depth + 1) rest := by
  induction hderives generalizing depth rest with
  | number | die => rfl
  | group start stop _ ih =>
      simp only [List.cons_append, List.append_assoc, nextOperatorAt?, ih, List.nil_append]
  | factor _ ih | term _ ih => exact ih depth rest
  | times index _ _ ihLeft ihRight | operation _ index _ _ ihLeft ihRight =>
      simp only [List.append_assoc, List.cons_append, ihLeft, nextOperatorAt?, ihRight]
  | beside _ _ _ ihLeft ihRight => simp only [List.append_assoc, ihLeft, ihRight]
  | signed _ _ index _ ih => simp only [List.cons_append, nextOperatorAt?, ih]

/-- The look ahead finds what follows a factor. -/
theorem operatorAfterValue?_append_of_derives {style : Style} {tokens : List Token} {expr : Expr}
    (hderives : Derives style .factor tokens expr) (rest : List Token) :
    operatorAfterValue? (tokens ++ rest) = nextOperatorAt? 0 rest := by
  cases hderives with
  | number | die => rfl
  | group start stop hinner =>
      simp only [operatorAfterValue?, List.cons_append, List.append_assoc, nextOperatorAt?,
        nextOperatorAt?_append_of_derives hinner, List.nil_append]

/-- The look ahead sees the multiplication that goes on after a term. -/
theorem operatorAfterValue?_append_cons_mul {tokens : List Token} {expr : Expr}
    (hderives : Derives .explicit .term tokens expr) (index : Int) (rest : List Token) :
    operatorAfterValue? (tokens ++ ⟨index, .operator .mul⟩ :: rest) = some .mul := by
  generalize hpart : Part.term = part at hderives
  induction hderives generalizing index rest with
  | number | die | group | term | signed | operation => cases hpart
  | beside hshort => cases hshort
  | factor hfactor =>
      rw [operatorAfterValue?_append_of_derives hfactor]
      rfl
  | times inner _ _ ihLeft =>
      rw [List.append_assoc, List.cons_append]
      exact ihLeft inner _ hpart

/-! ### Reading a part -/

/-- An operator takes its right side when none follows that binds tighter than its floor. -/
theorem continuation_operand {floor : Nat} {rest : List Token}
    (hloose : ∀ operator ∈ leadingOperator? rest, operator.priority ≤ floor) (outerFloor : Nat)
    (left value : Expr) (operator : Operator) (pending : List Pending) :
    continuation floor value (.operand outerFloor left operator :: pending) rest =
      continuation outerFloor (.binary operator left value) pending rest := by
  have hsettle : ∀ next : Option Operator, (∀ operator ∈ next, operator.priority ≤ floor) →
      settle next floor value (.operand outerFloor left operator :: pending) =
        settle next outerFloor (.binary operator left value) pending := by
    intro next hnext
    have hfilter : next.filter (floor < ·.priority) = none := by
      rw [Option.filter_eq_none_iff]
      intro operator hmem
      simpa using hnext operator hmem
    simp only [settle, hfilter]
  cases rest with
  | nil => simp only [continuation, hsettle none (by simp)]
  | cons token rest => simp only [continuation, hsettle token.kind.operator? hloose]

/-- An operator that binds tighter than the floor takes the value as its left side. -/
theorem continuation_cons_operator {floor : Nat} {operator : Operator}
    (htight : floor < operator.priority) (value : Expr) (pending : List Pending) (index : Int)
    (rest : List Token) :
    continuation floor value pending (⟨index, .operator operator⟩ :: rest) =
      operand (rightFloor operator rest) (.operand floor value operator :: pending) rest := by
  have hfilter : (some operator).filter (floor < ·.priority) = some operator := by
    simp [htight]
  cases pending <;> simp only [continuation, Token.Kind.operator?, settle, hfilter]

/-- A closing bracket completes the innermost group. -/
theorem continuation_cons_closing (floor outerFloor : Nat) (value : Expr) (pending : List Pending)
    (index : Int) (rest : List Token) :
    continuation floor value (.group outerFloor :: pending) (⟨index, .closing⟩ :: rest) =
      continuation outerFloor value pending rest := by
  simp only [continuation, Token.Kind.operator?, settle, Option.filter_none]

theorem rightFloor_mul (rest : List Token) : rightFloor .mul rest = 2 := by
  rw [rightFloor]
  split
  · rename_i following _
    exact if_neg (Nat.not_lt.2 following.priority_le_two)
  · rfl

/-- Nothing binds looser than addition and subtraction. -/
theorem one_le_rightFloor (operator : Operator) (rest : List Token) :
    1 ≤ rightFloor operator rest := by
  rw [rightFloor]
  split
  · split
    · exact operator.priority_pos
    · decide
  · decide

/-- The right side of a sum stops at 1 when a multiplication comes next. -/
theorem rightFloor_le_one_or {operator : Operator} (hsign : operator ≠ .mul) (rest : List Token) :
    rightFloor operator rest ≤ 1 ∨ operatorAfterValue? rest ≠ some .mul := by
  by_cases hahead : operatorAfterValue? rest = some .mul
  · left
    cases operator with
    | add | sub => simp [rightFloor, hahead, Operator.priority]
    | mul => exact absurd rfl hsign
  · exact .inr hahead

theorem priority_of_ne_mul {operator : Operator} (hsign : operator ≠ .mul) :
    operator.priority = 1 := by
  cases operator with
  | add | sub => rfl
  | mul => exact absurd rfl hsign

/-- When a part can be read as a whole at a floor, with `rest` after it.  A term must not be cut
short after its first factor, and what follows a sum must not draw its last term away. -/
def Fits (floor : Nat) (tokens rest : List Token) : Part → Prop
  | .factor => True
  | .term => floor ≤ 1 ∨ operatorAfterValue? (tokens ++ rest) ≠ some .mul
  | .sum => floor = 0 ∧ ∀ operator ∈ leadingOperator? rest, operator ≠ .mul

/-- A derived part that fits is read as its tree, whatever is pending. -/
theorem operand_append {part : Part} {tokens : List Token} {expr : Expr}
    (hderives : Derives .explicit part tokens expr) {floor : Nat} {rest : List Token}
    (hfits : Fits floor tokens rest part) (pending : List Pending) :
    operand floor pending (tokens ++ rest) = continuation floor expr pending rest := by
  induction hderives generalizing floor rest pending with
  | number | die => rfl
  | beside hshort | signed hshort => cases hshort
  | group start stop _ ih =>
      simp only [List.cons_append, List.append_assoc, operand, List.nil_append]
      rw [ih ⟨rfl, by simp [leadingOperator?, Token.Kind.operator?]⟩]
      exact continuation_cons_closing 0 floor _ pending stop rest
  | factor _ ih => exact ih trivial pending
  | @times left right leftExpr rightExpr index hleft _ ihLeft ihRight =>
      have hfloor : floor ≤ 1 := by
        refine hfits.resolve_right fun hahead => hahead ?_
        rw [List.append_assoc, List.cons_append]
        exact operatorAfterValue?_append_cons_mul hleft index _
      rw [List.append_assoc, List.cons_append, ihLeft (.inl hfloor),
        continuation_cons_operator (Nat.lt_succ_of_le hfloor), rightFloor_mul, ihRight trivial]
      exact continuation_operand (fun following _ => following.priority_le_two) ..
  | term _ ih => exact ih (.inl (hfits.1 ▸ Nat.zero_le 1)) pending
  | @operation left right leftExpr rightExpr sign hsign index _ _ ihLeft ihRight =>
      obtain ⟨rfl, hfollowing⟩ := hfits
      have hloose : ∀ operator ∈ leadingOperator? rest,
          operator.priority ≤ rightFloor sign (right ++ rest) := by
        intro operator hmem
        rw [priority_of_ne_mul (hfollowing operator hmem)]
        exact one_le_rightFloor ..
      rw [List.append_assoc, List.cons_append,
        ihLeft ⟨rfl, by simpa [leadingOperator?, Token.Kind.operator?] using hsign⟩,
        continuation_cons_operator sign.priority_pos,
        ihRight (rightFloor_le_one_or hsign _)]
      exact continuation_operand hloose ..

/-- An explicit stream that denotes a tree assembles to it. -/
theorem assemble_eq_ok_of_derives {tokens : List Token} {expr : Expr}
    (hderives : Derives .explicit .sum tokens expr) : Expr.assemble tokens = .ok expr := by
  have hfits : Fits 0 tokens [] .sum := ⟨rfl, by simp [leadingOperator?]⟩
  calc
    Expr.assemble tokens = operand 0 [] (tokens ++ []) := by rw [List.append_nil, Expr.assemble]
    _ = continuation 0 expr [] [] := operand_append hderives hfits []
    _ = .ok expr := rfl

end DiceOdds.Grammar
