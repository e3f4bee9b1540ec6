import DiceOdds.Expr.Render
import DiceOdds.Proofs.Grammar.Parse
import DiceOdds.Proofs.Scan

/-!
# Reading back what was written

The dice notation of a tree is read back as that tree, provided that the tree holds only numbers and
dice that can be written down: no negative number, no die without faces, and no die that is rolled
more than once or drops rolls.  Reading never makes any other tree.  It makes some, though, that
have no notation, since digits are read one at a time and without a limit.
-/

namespace DiceOdds

open Grammar

/-- Every number and every die of the tree has a notation. -/
def Expr.Writable : Expr → Prop
  | .number value => 0 ≤ value
  | .die shape => 1 ≤ shape.faces ∧ shape.rolls = 1 ∧ shape.dropLowest = 0 ∧ shape.dropHighest = 0
  | .binary _ left right => left.Writable ∧ right.Writable

namespace Grammar

/-! ### Only writable trees are read -/

theorem writable_of_derives {style : Style} {part : Part} {tokens : List Token} {expr : Expr}
    (hderives : Derives style part tokens expr)
    (hreadable : ∀ token ∈ tokens, token.kind.Readable) : expr.Writable := by
  induction hderives with
  | number index value => exact hreadable _ List.mem_cons_self
  | die index faces => exact ⟨hreadable _ List.mem_cons_self, rfl, rfl, rfl⟩
  | group start stop _ ih =>
      exact ih fun token hmem => hreadable token (by simp [hmem])
  | factor _ ih | term _ ih => exact ih hreadable
  | times index _ _ ihLeft ihRight | operation _ index _ _ ihLeft ihRight =>
      exact ⟨ihLeft fun token hmem => hreadable token (by simp [hmem]),
        ihRight fun token hmem => hreadable token (by simp [hmem])⟩
  | beside _ _ _ ihLeft ihRight =>
      exact ⟨ihLeft fun token hmem => hreadable token (by simp [hmem]),
        ihRight fun token hmem => hreadable token (by simp [hmem])⟩
  | signed _ _ index _ ih =>
      exact ⟨Int.le_refl 0, ih fun token hmem => hreadable token (by simp [hmem])⟩

theorem writable_of_parse {text : Text} {expr : Expr} (hparse : Expr.parse text = .ok expr) :
    expr.Writable := by
  obtain ⟨tokens, hscan, hderives⟩ := parse_eq_ok_iff.1 hparse
  exact writable_of_derives hderives (Token.readable_of_scanFrom hscan)

/-! ### Text that denotes a tree -/

/-- Wherever the text stands, it scans to a part that denotes the tree. -/
def Written (part : Part) (text : Text) (expr : Expr) : Prop :=
  ∀ index, ∃ tokens, Token.Scans index text tokens ∧ Derives .short part tokens expr

def Part.priority : Part → Nat
  | .sum => 1
  | .term => 2
  | .factor => 3

/-- A part can stand wherever a looser one is wanted. -/
theorem Derives.weaken {style : Style} {part wanted : Part} {tokens : List Token} {expr : Expr}
    (hderives : Derives style part tokens expr) (hloose : wanted.priority ≤ part.priority) :
    Derives style wanted tokens expr := by
  cases part with
  | sum =>
      cases wanted with
      | sum => exact hderives
      | term | factor => exact absurd hloose (by decide)
  | term =>
      cases wanted with
      | sum => exact .term hderives
      | term => exact hderives
      | factor => exact absurd hloose (by decide)
  | factor =>
      cases wanted with
      | sum => exact .term (.factor hderives)
      | term => exact .factor hderives
      | factor => exact hderives

theorem Written.weaken {part wanted : Part} {text : Text} {expr : Expr}
    (hwritten : Written part text expr) (hloose : wanted.priority ≤ part.priority) :
    Written wanted text expr := by
  intro index
  obtain ⟨tokens, hscans, hderives⟩ := hwritten index
  exact ⟨tokens, hscans, hderives.weaken hloose⟩

theorem written_number {value : Int} (hvalue : 0 ≤ value) :
    Written .factor (Text.ofInt value) (.number value) :=
  fun index => ⟨_, Token.scans_number hvalue index, .number index value⟩

theorem written_die {faces : Int} (hfaces : 1 ≤ faces) :
    Written .factor (.scalar 'd' :: Text.ofInt faces) (.die { faces }) :=
  fun index => ⟨_, Token.scans_die hfaces index, .die index faces⟩

/-- Brackets make a factor of any tree. -/
theorem Written.bracketed {text : Text} {expr : Expr} (hwritten : Written .sum text expr) :
    Written .factor (.scalar '(' :: text ++ [.scalar ')']) expr := by
  intro index
  obtain ⟨tokens, hscans, hderives⟩ := hwritten (index + 1)
  have hclosing := (Token.scans_nil (index + 1 + text.length + 1)).mark
    (show (CodePoint.scalar ')').symbol = .mark .closing from rfl)
  have hinner := hscans.append (Token.endsRun_cons rfl []) hclosing
  have hall := hinner.mark (show (CodePoint.scalar '(').symbol = .mark .opening from rfl)
  exact ⟨_, hall, .group index _ hderives⟩

/-! ### Notation of a tree -/

/-- The part that an operator makes, which is also what it takes on its left. -/
def Part.ofOperator : Operator → Part
  | .add | .sub => .sum
  | .mul => .term

/-- What an operator takes on its right. -/
def Part.rightOf : Operator → Part
  | .add | .sub => .term
  | .mul => .factor

def Part.ofExpr : Expr → Part
  | .number _ | .die _ => .factor
  | .binary operator _ _ => .ofOperator operator

theorem priority_ofExpr (expr : Expr) : (Part.ofExpr expr).priority = expr.priority := by
  cases expr with
  | number | die => rfl
  | binary operator => cases operator <;> rfl

theorem priority_ofOperator (operator : Operator) :
    (Part.ofOperator operator).priority = operator.priority := by
  cases operator <;> rfl

theorem priority_rightOf (operator : Operator) :
    (Part.rightOf operator).priority = operator.priority + 1 := by
  cases operator <;> rfl

theorem symbol_sign (operator : Operator) :
    (CodePoint.scalar operator.sign).symbol = .mark (.operator operator) := by
  cases operator <;> rfl

theorem derives_binary {left right : List Token} {leftExpr rightExpr : Expr} {operator : Operator}
    (index : Int) (hleft : Derives .short (.ofOperator operator) left leftExpr)
    (hright : Derives .short (.rightOf operator) right rightExpr) :
    Derives .short (.ofOperator operator) (left ++ ⟨index, .operator operator⟩ :: right)
      (.binary operator leftExpr rightExpr) := by
  cases operator with
  | add =>
      have hsign : Operator.add ≠ .mul := nofun
      exact .operation hsign index hleft hright
  | sub =>
      have hsign : Operator.sub ≠ .mul := nofun
      exact .operation hsign index hleft hright
  | mul => exact .times index hleft hright

theorem Written.unspaced {left right : Text} {leftExpr rightExpr : Expr} {operator : Operator}
    (hleft : Written (.ofOperator operator) left leftExpr)
    (hright : Written (.rightOf operator) right rightExpr) :
    Written (.ofOperator operator) (left ++ .scalar operator.sign :: right)
      (.binary operator leftExpr rightExpr) := by
  intro index
  obtain ⟨leftTokens, hleftScans, hleftDerives⟩ := hleft index
  obtain ⟨rightTokens, hrightScans, hrightDerives⟩ := hright (index + left.length + 1)
  have hends : Token.EndsRun (.scalar operator.sign :: right) := by
    apply Token.endsRun_cons
    rw [symbol_sign]
    rfl
  have hall := hleftScans.append hends (hrightScans.mark (symbol_sign operator))
  exact ⟨_, hall, derives_binary _ hleftDerives hrightDerives⟩

theorem Written.blankBefore {part : Part} {text : Text} {expr : Expr}
    (hwritten : Written part text expr) : Written part (.scalar ' ' :: text) expr := by
  intro index
  obtain ⟨tokens, hscans, hderives⟩ := hwritten (index + 1)
  exact ⟨tokens, hscans.blank rfl, hderives⟩

theorem Written.blankAfter {part : Part} {text : Text} {expr : Expr}
    (hwritten : Written part text expr) : Written part (text ++ [.scalar ' ']) expr := by
  intro index
  obtain ⟨tokens, hscans, hderives⟩ := hwritten index
  have hblank := (Token.scans_nil (index + text.length + 1)).blank
    (show (CodePoint.scalar ' ').symbol = .blank from rfl)
  have hall := hscans.append (Token.endsRun_cons rfl []) hblank
  rw [List.append_nil] at hall
  exact ⟨tokens, hall, hderives⟩

theorem Written.binary {left right : Text} {leftExpr rightExpr : Expr} {operator : Operator}
    (hleft : Written (.ofOperator operator) left leftExpr)
    (hright : Written (.rightOf operator) right rightExpr) :
    Written (.ofOperator operator)
      (left ++ [.scalar ' ', .scalar operator.sign, .scalar ' '] ++ right)
      (.binary operator leftExpr rightExpr) := by
  simpa using hleft.blankAfter.unspaced hright.blankBefore

theorem Part.one_le_priority (part : Part) : 1 ≤ part.priority := by
  cases part <;> decide

theorem Part.priority_le_three (part : Part) : part.priority ≤ 3 := by
  cases part <;> decide

/-- Brackets are written where a tighter part is wanted than the tree is by itself. -/
theorem Written.bracketedIf {condition : Prop} [Decidable condition] {expr : Expr} {wanted : Part}
    (hwritten : Written (.ofExpr expr) expr.render expr)
    (hcondition : condition ↔ expr.priority < wanted.priority) :
    Written wanted (Expr.bracketedIf condition expr.render) expr := by
  rw [Expr.bracketedIf]
  split
  · have hsum : Written .sum expr.render expr := hwritten.weaken (Part.one_le_priority _)
    exact hsum.bracketed.weaken (Part.priority_le_three wanted)
  · rename_i hnot
    rw [hcondition, Nat.not_lt] at hnot
    exact hwritten.weaken (priority_ofExpr expr ▸ hnot)

/-- A die directly after a count makes a pool. -/
theorem Written.pool {text : Text} {count : Expr} {faces : Int}
    (hcount : Written .term text count) (hfaces : 1 ≤ faces) :
    Written .term (text ++ .scalar 'd' :: Text.ofInt faces)
      (.binary .mul count (.die { faces })) := by
  intro index
  obtain ⟨countTokens, hcountScans, hcountDerives⟩ := hcount index
  obtain ⟨dieTokens, hdieScans, hdieDerives⟩ := written_die hfaces (index + text.length)
  have hall := hcountScans.append (Token.endsRun_cons rfl _) hdieScans
  exact ⟨_, hall, .beside rfl hcountDerives hdieDerives⟩

theorem written_compact {count faces : Int} (hcount : 0 ≤ count) (hfaces : 1 ≤ faces) :
    Written .term (Text.ofInt count ++ .scalar 'd' :: Text.ofInt faces)
      (.binary .mul (.number count) (.die { faces })) :=
  ((written_number hcount).weaken (by decide)).pool hfaces

theorem eq_plain_of_writable {shape : Die} (hwritable : (Expr.die shape).Writable) :
    1 ≤ shape.faces ∧ shape = { faces := shape.faces } := by
  obtain ⟨faces, rolls, dropLowest, dropHighest⟩ := shape
  obtain ⟨hfaces, hrolls, hlowest, hhighest⟩ := hwritable
  cases hrolls
  cases hlowest
  cases hhighest
  exact ⟨hfaces, rfl⟩

theorem written_render {expr : Expr} (hwritable : expr.Writable) :
    Written (.ofExpr expr) expr.render expr := by
  fun_induction Expr.render expr with
  | case1 value => exact written_number hwritable
  | case2 shape =>
      obtain ⟨hfaces, hplain⟩ := eq_plain_of_writable hwritable
      rw [hplain]
      exact written_die hfaces
  | case3 count shape =>
      obtain ⟨hfaces, hplain⟩ := eq_plain_of_writable hwritable.2
      rw [hplain]
      exact written_compact hwritable.1 hfaces
  | case4 operator left right hcompact ihLeft ihRight =>
      have hleft : Written (.ofOperator operator) _ left :=
        (ihLeft hwritable.1).bracketedIf (by rw [priority_ofOperator])
      have hright : Written (.rightOf operator) _ right :=
        (ihRight hwritable.2).bracketedIf (by rw [priority_rightOf, Nat.lt_succ_iff])
      exact hleft.binary hright

theorem Written.parse {part : Part} {text : Text} {expr : Expr}
    (hwritten : Written part text expr) : Expr.parse text = .ok expr := by
  obtain ⟨tokens, hscans, hderives⟩ := hwritten 0
  have hsum : Derives .short .sum tokens expr := hderives.weaken (Part.one_le_priority _)
  exact parse_eq_ok_iff.2 ⟨tokens, hscans.scan, hsum⟩

theorem parse_render {expr : Expr} (hwritable : expr.Writable) :
    Expr.parse expr.render = .ok expr :=
  (written_render hwritable).parse

/-- A tree is written down if and only if none of its integers has too many digits.  What is written
is read back as the tree if and only if the tree is writable, and only writable trees are ever
read. -/
theorem parse_render_iff_writable (expr : Expr) :
    (expr.render? = none ↔ ∃ value ∈ expr.numerals, ¬ Text.Fits value) ∧
    ((∃ text, expr.render? = some text ∧ Expr.parse text = .ok expr) ↔
      expr.Writable ∧ ∀ value ∈ expr.numerals, Text.Fits value) ∧
    ∀ text, Expr.parse text = .ok expr → expr.Writable := by
  refine ⟨?_, ⟨?_, ?_⟩, fun text => writable_of_parse⟩
  · simp only [Expr.render?_eq_none_iff, Expr.Fits, Classical.not_forall, exists_prop]
  · rintro ⟨text, hrender, hparse⟩
    exact ⟨writable_of_parse hparse, (Expr.render?_eq_some_iff.1 hrender).1⟩
  · rintro ⟨hwritable, hfits⟩
    exact ⟨expr.render, Expr.render?_of_fits hfits, parse_render hwritable⟩

/-- The least number that is read and not written. -/
theorem least_unwritten_number :
    Expr.parse (.ofInt (10 ^ 4300)) = .ok (.number (10 ^ 4300)) ∧
      (Expr.number (10 ^ 4300)).Writable ∧ (Expr.number (10 ^ 4300)).render? = none ∧
      (Expr.number (10 ^ 4300 - 1)).render? = some (.ofInt (10 ^ 4300 - 1)) := by
  have hnonneg : (0 : Int) ≤ 10 ^ 4300 := Int.le_of_lt (Int.pow_pos (by decide))
  refine ⟨(written_number hnonneg).parse, hnonneg, ?_, ?_⟩
  · rw [Expr.render?_eq_none_iff]
    exact fun hfits => Text.not_fits_pow_digitLimit (hfits _ List.mem_cons_self)
  · exact Expr.render?_of_fits (List.forall_mem_singleton.2 Text.fits_pow_digitLimit_sub_one)

end Grammar

end DiceOdds
