import DiceOdds.Proofs.Grammar.Refusal
import DiceOdds.Proofs.Render
import DiceOdds.Proofs.Scan.Spelling
import Mathlib.Order.Bounds.Defs

/-!
# No bracket too many

Brackets are written around a tree that is looser than the part that is wanted in its place.  A text
that denotes the tree cannot do without a group there either, because nothing but a group makes a
part tighter.  Different brackets of the notation stand for different groups of the text.
-/

namespace DiceOdds

open Grammar

/-! ### Opening brackets of a text -/

namespace Text

/-- How many opening brackets of any shape are in the text. -/
def bracketsOpened (text : Text) : Nat :=
  text.countP (· ∈ openingBrackets)

theorem bracketsOpened_append (left right : Text) :
    bracketsOpened (left ++ right) = left.bracketsOpened + right.bracketsOpened :=
  List.countP_append

theorem bracketsOpened_cons (point : CodePoint) (rest : Text) :
    bracketsOpened (point :: rest) =
      rest.bracketsOpened + if point.symbol = .mark .opening then 1 else 0 := by
  have hopening : point.symbol = .mark .opening ↔ point ∈ openingBrackets :=
    CodePoint.symbol_eq_iff (by simp)
  simp [bracketsOpened, List.countP_cons, hopening]

theorem bracketsOpened_digits {digits : List Char}
    (hdigits : ∀ digit ∈ digits, digit.isDigit = true) :
    bracketsOpened (digits.map CodePoint.scalar) = 0 := by
  have hbrackets : ∀ point ∈ openingBrackets, point.toChar.isDigit = false := by decide
  refine List.countP_eq_zero.2 fun point hmem hopening => ?_
  obtain ⟨digit, hdigit, rfl⟩ := List.mem_map.1 hmem
  have hnot := hbrackets _ (of_decide_eq_true hopening)
  exact absurd (hdigits digit hdigit) (ne_true_of_eq_false hnot)

theorem bracketsOpened_ofInt (value : Int) : (ofInt value).bracketsOpened = 0 := by
  have hnumeral (size : Nat) : (numeral size).bracketsOpened = 0 :=
    bracketsOpened_digits (isDigit_of_mem_toDigits_ten size)
  obtain hneg | hnonneg := Int.lt_or_le value 0
  · rw [ofInt_of_neg hneg, bracketsOpened_cons, hnumeral]
    rfl
  · rw [ofInt_of_nonneg hnonneg, hnumeral]

theorem bracketsOpened_die (faces : Int) :
    bracketsOpened (.scalar 'd' :: ofInt faces) = 0 := by
  have hmark : (CodePoint.scalar 'd').symbol = .dieMark := rfl
  rw [bracketsOpened_cons, bracketsOpened_ofInt, hmark]
  rfl

theorem bracketsOpened_padded (zeros value : Nat) : (padded zeros value).bracketsOpened = 0 := by
  rw [padded_eq_map]
  exact bracketsOpened_digits (isDigit_of_mem_padded zeros value)

end Text

namespace Token

open Text

theorem Spelling.bracketsOpened_eq {text : Text} {kinds : List Kind}
    (hspelling : Spelling text kinds) : text.bracketsOpened = kinds.count .opening := by
  induction hspelling with
  | done => rfl
  | @blank point _ _ hpoint _ ih =>
      have hsymbol : point.symbol = .blank := (CodePoint.symbol_eq_iff (by simp)).2 hpoint
      rw [bracketsOpened_cons, ih, hsymbol]
      rfl
  | mark hpoint _ ih =>
      rw [bracketsOpened_cons, ih, CodePoint.symbol_of_mem_characters hpoint]
      simp [List.count_cons]
  | number zeros value _ _ ih =>
      rw [bracketsOpened_append, bracketsOpened_padded, ih]
      simp
  | die zeros _ _ _ ih =>
      have hmark : (CodePoint.scalar 'd').symbol = .dieMark := rfl
      rw [List.cons_append, bracketsOpened_cons, bracketsOpened_append, bracketsOpened_padded, ih,
        hmark]
      simp

theorem openings_of_scan {text : Text} {tokens : List Token} (hscan : scan text = .ok tokens) :
    openings tokens = text.bracketsOpened := by
  rw [(spelling_of_scan hscan).bracketsOpened_eq, openings, List.count, List.countP_map]
  rfl

end Token

/-! ### Brackets of the notation -/

open Text

theorem Expr.bracketsOpened_bracketedIf (condition : Prop) [Decidable condition] (inner : Text) :
    (Expr.bracketedIf condition inner).bracketsOpened =
      inner.bracketsOpened + if condition then 1 else 0 := by
  rw [Expr.bracketedIf]
  split
  · rw [List.cons_append, bracketsOpened_cons, bracketsOpened_append]
    rfl
  · rfl

namespace Grammar

variable {expr : Expr}

/-- How many brackets the notation of a tree opens where such a part is wanted. -/
def bracketsIn (wanted : Part) (expr : Expr) : Nat :=
  expr.render.bracketsOpened + if expr.priority < wanted.priority then 1 else 0

/-- A looser part never needs more brackets. -/
theorem bracketsIn_mono {loose tight : Part} (hle : loose.priority ≤ tight.priority) (expr : Expr) :
    bracketsIn loose expr ≤ bracketsIn tight expr := by
  apply Nat.add_le_add_left
  split
  · next hlt => exact Nat.le_of_eq (if_pos (Nat.lt_of_lt_of_le hlt hle)).symm
  · exact Nat.zero_le _

/-- A group makes up for one bracket at most. -/
theorem bracketsIn_le_succ (wanted : Part) (expr : Expr) :
    bracketsIn wanted expr ≤ bracketsIn .sum expr + 1 := by
  have hone : bracketsIn wanted expr ≤ expr.render.bracketsOpened + 1 := by
    apply Nat.add_le_add_left
    split <;> decide
  exact Nat.le_trans hone (Nat.succ_le_succ (Nat.le_add_right _ _))

theorem bracketsOpened_binary_le (operator : Operator) (left right : Expr) :
    (Expr.binary operator left right).render.bracketsOpened ≤
      bracketsIn (.ofOperator operator) left + bracketsIn (.rightOf operator) right := by
  -- the short form of a pool is a form of its own, and has no brackets
  by_cases hcompact : ∃ count shape, operator = .mul ∧ left = .number count ∧ right = .die shape
  · obtain ⟨count, shape, rfl, rfl, rfl⟩ := hcompact
    rw [Expr.render, bracketsOpened_append, bracketsOpened_ofInt, bracketsOpened_die]
    exact Nat.zero_le _
  · have hblanks : bracketsOpened [.scalar ' ', .scalar operator.sign, .scalar ' '] = 0 := by
      cases operator <;> rfl
    rw [Expr.render, bracketsOpened_append, bracketsOpened_append,
      Expr.bracketsOpened_bracketedIf, Expr.bracketsOpened_bracketedIf, hblanks, bracketsIn,
      bracketsIn, priority_ofOperator, priority_rightOf]
    · simp only [Nat.lt_succ_iff, Nat.add_zero, Nat.le_refl]
    · intro count shape hmul hleft hright
      exact hcompact ⟨count, shape, hmul, hleft, hright⟩

/-- Where its own part is wanted, an operation needs the brackets of its two sides only. -/
theorem bracketsIn_binary_le (operator : Operator) (left right : Expr) :
    bracketsIn (.ofOperator operator) (.binary operator left right) ≤
      bracketsIn (.ofOperator operator) left + bracketsIn (.rightOf operator) right := by
  have hown : (Part.ofOperator operator).priority ≤ (Expr.binary operator left right).priority :=
    Nat.le_of_eq (priority_ofOperator operator)
  rw [bracketsIn, if_neg (Nat.not_lt.2 hown), Nat.add_zero]
  exact bracketsOpened_binary_le operator left right

theorem bracketsIn_sign_le {sign : Operator} (hsign : sign ≠ .mul) (left right : Expr) :
    bracketsIn .sum (.binary sign left right) ≤ bracketsIn .sum left + bracketsIn .term right := by
  cases sign with
  | add => exact bracketsIn_binary_le .add left right
  | sub => exact bracketsIn_binary_le .sub left right
  | mul => exact absurd rfl hsign

theorem openings_operation (left right : List Token) (index : Int) (operator : Operator) :
    openings (left ++ ⟨index, .operator operator⟩ :: right) = openings left + openings right := by
  simp [openings_append, openings_cons]

/-- Any tokens that denote the tree open at least as many brackets as its notation. -/
theorem bracketsIn_le_openings {style : Style} {part : Part} {tokens : List Token}
    (hderives : Derives style part tokens expr) : bracketsIn part expr ≤ openings tokens := by
  induction hderives with
  | number index value => exact Nat.le_of_eq (bracketsOpened_ofInt value)
  | die index faces => exact Nat.le_of_eq (bracketsOpened_die faces)
  | @group tokens expr start stop _ ih =>
      have hopenings : openings (⟨start, .opening⟩ :: tokens ++ [⟨stop, .closing⟩]) =
          openings tokens + 1 := by
        simp [openings]
      rw [hopenings]
      exact Nat.le_trans (bracketsIn_le_succ _ expr) (Nat.succ_le_succ ih)
  | @factor _ expr _ ih =>
      have hmono : bracketsIn .term expr ≤ bracketsIn .factor expr := bracketsIn_mono (by decide) _
      exact Nat.le_trans hmono ih
  | @term _ expr _ ih =>
      have hmono : bracketsIn .sum expr ≤ bracketsIn .term expr := bracketsIn_mono (by decide) _
      exact Nat.le_trans hmono ih
  | times index _ _ ihLeft ihRight =>
      rw [openings_operation]
      exact Nat.le_trans (bracketsIn_binary_le .mul _ _) (Nat.add_le_add ihLeft ihRight)
  | beside _ _ _ ihLeft ihRight =>
      rw [openings_append]
      exact Nat.le_trans (bracketsIn_binary_le .mul _ _) (Nat.add_le_add ihLeft ihRight)
  | @signed tokens expr sign _ hsign index _ ih =>
      have hzero : bracketsIn .sum (.number 0) = 0 := by decide
      have hle := bracketsIn_sign_le hsign (.number 0) expr
      rw [hzero, Nat.zero_add] at hle
      have hopenings : openings (⟨index, .operator sign⟩ :: tokens) = openings tokens :=
        openings_cons _ _
      exact Nat.le_trans hle (hopenings ▸ ih)
  | operation hsign index _ _ ihLeft ihRight =>
      rw [openings_operation]
      exact Nat.le_trans (bracketsIn_sign_le hsign _ _) (Nat.add_le_add ihLeft ihRight)

/-! ### The fewest brackets -/

theorem bracketsOpened_render_le {text : Text} (hparse : Expr.parse text = .ok expr) :
    expr.render.bracketsOpened ≤ text.bracketsOpened := by
  obtain ⟨tokens, hscan, hderives⟩ := parse_eq_ok_iff.1 hparse
  calc expr.render.bracketsOpened
      ≤ bracketsIn .sum expr := Nat.le_add_right _ _
    _ ≤ openings tokens := bracketsIn_le_openings hderives
    _ = text.bracketsOpened := Token.openings_of_scan hscan

/-- The notation of a tree opens the fewest brackets of all texts that are read as the tree,
whatever the shapes of their brackets. -/
theorem render_opens_fewest_brackets {text : Text} {expr : Expr}
    (hparse : Expr.parse text = .ok expr) :
    expr.render.count (.scalar '(') ≤ text.bracketsOpened ∧
      IsLeast {opened | ∃ spelling, Expr.parse spelling = .ok expr ∧
        spelling.bracketsOpened = opened} expr.render.bracketsOpened := by
  have hround : expr.render.count (.scalar '(') ≤ expr.render.bracketsOpened := by
    apply List.countP_mono_left
    intro point _ hpoint
    rw [eq_of_beq hpoint]
    decide
  refine ⟨Nat.le_trans hround (bracketsOpened_render_le hparse), ?_, ?_⟩
  · exact ⟨expr.render, parse_render (writable_of_parse hparse), rfl⟩
  · rintro opened ⟨spelling, hspelling, rfl⟩
    exact bracketsOpened_render_le hspelling

/-- `2[{3+4}]`, which is written as `2 * (3 + 4)`. -/
def groupedFactor : Expr :=
  .binary .mul (.number 2) (.binary .add (.number 3) (.number 4))

theorem render_groupedFactor :
    Expr.parse (.ofString "2[\x7b3+4\x7d]") = .ok groupedFactor ∧
      groupedFactor.render = .ofString "2 * (3 + 4)" ∧
      groupedFactor.render.count (.scalar '(') ≤ bracketsOpened (.ofString "2[\x7b3+4\x7d]") := by
  have hparse : Expr.parse (.ofString "2[\x7b3+4\x7d]") = .ok groupedFactor := by decide
  exact ⟨hparse, by decide, (render_opens_fewest_brackets hparse).1⟩

end Grammar

end DiceOdds
