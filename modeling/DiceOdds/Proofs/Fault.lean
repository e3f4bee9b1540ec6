import DiceOdds.Fault
import DiceOdds.Proofs.Json.Numbers
import Mathlib.Tactic.SplitIfs

/-!
# A message tells its fault

The message of a fault names its cause and its index, and quotes the character if one is to blame.
A quoted character can be told from what follows it, even where it is spelled out, so two faults
with the same message are the same.
-/

namespace DiceOdds

namespace Text

/-- The letters that stand for a character of their own after a backslash. -/
def letterEscapes : List (Char × Char) :=
  [('\\', '\\'), ('n', '\n'), ('r', '\r'), ('t', '\t')]

/-- The letters after a backslash that start a number, with its number of digits. -/
def hexEscapes : List (Char × Nat) :=
  [('x', 2), ('u', 4), ('U', 8)]

/-- The ways in which a code point is shown between quote marks. -/
inductive Shows : CodePoint → Text → Prop
  | plain {point : CodePoint} (hplain : point ≠ .scalar '\\') : Shows point [point]
  | letter {letter character : Char} (hletter : (letter, character) ∈ letterEscapes) :
      Shows (.scalar character) [.scalar '\\', .scalar letter]
  | hex {point : CodePoint} {letter : Char} {width : Nat} (hletter : (letter, width) ∈ hexEscapes)
      (hnumber : point.number < 16 ^ width) :
      Shows point (.scalar '\\' :: .scalar letter :: hex width point.number)

theorem shows_hexEscape (point : CodePoint) : Shows point (hexEscape point) := by
  have hlimit := point.number_lt
  unfold hexEscape
  split_ifs with hbyte hunit
  · exact .hex (show ('x', 2) ∈ hexEscapes by decide) (by omega)
  · exact .hex (show ('u', 4) ∈ hexEscapes by decide) (by omega)
  · exact .hex (show ('U', 8) ∈ hexEscapes by decide) (by omega)

theorem shows_escapeWithin {mark : Char} {point : CodePoint} (hmark : point ≠ .scalar mark) :
    Shows point (escapeWithin mark point) := by
  unfold escapeWithin
  split_ifs with hitself hline hreturn htab
  · obtain rfl := hitself.resolve_left hmark
    exact .letter (show ('\\', '\\') ∈ letterEscapes by decide)
  · subst hline
    exact .letter (by decide)
  · subst hreturn
    exact .letter (by decide)
  · subst htab
    exact .letter (by decide)
  · exact .plain fun hbackslash => hitself (.inr hbackslash)
  · exact shows_hexEscape point

theorem eq_of_mem_letterEscapes :
    ∀ entry ∈ letterEscapes, ∀ other ∈ letterEscapes, entry.1 = other.1 → entry = other := by
  decide

theorem eq_of_mem_hexEscapes :
    ∀ entry ∈ hexEscapes, ∀ other ∈ hexEscapes, entry.1 = other.1 → entry = other := by
  decide

theorem letterEscapes_disjoint :
    ∀ entry ∈ letterEscapes, ∀ other ∈ hexEscapes, entry.1 ≠ other.1 := by
  decide

/-- What shows a code point can be told from what follows it. -/
theorem Shows.append_inj {left right : CodePoint} {leftText rightText leftRest rightRest : Text}
    (hleft : Shows left leftText) (hright : Shows right rightText)
    (heq : leftText ++ leftRest = rightText ++ rightRest) :
    left = right ∧ leftRest = rightRest := by
  have hinner {left right : Char} {leftMore rightMore : Text}
      (heq : CodePoint.scalar '\\' :: CodePoint.scalar left :: leftMore =
        CodePoint.scalar '\\' :: CodePoint.scalar right :: rightMore) :
      left = right ∧ leftMore = rightMore := by
    simpa using heq
  cases hleft with
  | plain hplain =>
    rw [List.singleton_append] at heq
    cases hright with
    | plain => exact List.cons.inj heq
    | letter | hex => exact absurd (List.cons.inj heq).1 hplain
  | letter hletter =>
    rw [List.cons_append, List.cons_append] at heq
    cases hright with
    | plain hplain => exact absurd (List.cons.inj heq).1.symm hplain
    | letter hother =>
        obtain ⟨rfl, hrest⟩ := hinner heq
        cases eq_of_mem_letterEscapes _ hletter _ hother rfl
        exact ⟨rfl, hrest⟩
    | hex hother =>
        exact absurd (hinner heq).1 (letterEscapes_disjoint _ hletter _ hother)
  | hex hletter hnumber =>
    rw [List.cons_append, List.cons_append] at heq
    cases hright with
    | plain hplain => exact absurd (List.cons.inj heq).1.symm hplain
    | letter hother =>
        exact absurd (hinner heq).1.symm (letterEscapes_disjoint _ hother _ hletter)
    | hex hother hotherNumber =>
        obtain ⟨rfl, hdigits⟩ := hinner heq
        cases eq_of_mem_hexEscapes _ hletter _ hother rfl
        obtain ⟨hhex, hrest⟩ := List.append_inj hdigits (by rw [length_hex, length_hex])
        exact ⟨CodePoint.number_injective (hex_injective hnumber hotherNumber hhex), hrest⟩

/-! ### A quoted code point -/

theorem exists_quoted_apostrophe : ∃ rest, quoted [.scalar '\x27'] = .scalar '"' :: rest :=
  ⟨_, rfl⟩

theorem quoted_singleton {point : CodePoint} (hpoint : point ≠ .scalar '\x27') :
    quoted [point] =
      .scalar '\x27' :: (escapeWithin '\x27' point ++ [CodePoint.scalar '\x27']) := by
  have hmark : quoteMark [point] = '\x27' := by
    simp [quoteMark, hpoint.symm]
  rw [quoted, hmark]
  simp

/-- A quoted code point can be told from what follows it. -/
theorem quoted_append_inj {left right : CodePoint} {leftRest rightRest : Text}
    (heq : quoted [left] ++ leftRest = quoted [right] ++ rightRest) :
    left = right ∧ leftRest = rightRest := by
  obtain ⟨rest, happostrophe⟩ := exists_quoted_apostrophe
  by_cases hleft : left = .scalar '\x27'
  · by_cases hright : right = .scalar '\x27'
    · subst hleft hright
      exact ⟨rfl, List.append_cancel_left heq⟩
    · rw [hleft, happostrophe, quoted_singleton hright] at heq
      cases (List.cons.inj heq).1
  · by_cases hright : right = .scalar '\x27'
    · rw [hright, happostrophe, quoted_singleton hleft] at heq
      cases (List.cons.inj heq).1
    · rw [quoted_singleton hleft, quoted_singleton hright] at heq
      simp only [List.cons_append, List.append_assoc, List.cons.injEq, true_and] at heq
      obtain ⟨hpoint, hrest⟩ :=
        (shows_escapeWithin hleft).append_inj (shows_escapeWithin hright) heq
      exact ⟨hpoint, (List.cons.inj hrest).2⟩

end Text

namespace Fault

/-- The first four characters of a message tell the kind of its cause. -/
def Cause.start : Cause → String
  | unexpectedToken _ => "unex"
  | badDie => "die "
  | illegalExpression => "ille"
  | unmatchedParen => "unma"
  | emptyExpression => "empt"

/-- The causes that blame no character. -/
def plainCauses : List Cause :=
  [.badDie, .illegalExpression, .unmatchedParen, .emptyExpression]

theorem token_or_plain (cause : Cause) :
    (∃ token, cause = .unexpectedToken token) ∨ cause ∈ plainCauses := by
  cases cause with
  | unexpectedToken token => exact .inl ⟨token, rfl⟩
  | badDie | illegalExpression | unmatchedParen | emptyExpression => exact .inr (by decide)

theorem start_injective_on_plain :
    ∀ left ∈ plainCauses, ∀ right ∈ plainCauses, left.start = right.start → left = right := by
  decide

theorem start_plain_ne : ∀ cause ∈ plainCauses, cause.start ≠ "unex" := by
  decide

theorem take_message (fault : Fault) : fault.message.take 4 = Text.ofString fault.cause.start := by
  have hstart {text : String} {start : String} (rest : Text)
      (hlength : 4 ≤ (Text.ofString text).length)
      (htake : (Text.ofString text).take 4 = Text.ofString start) :
      (Text.ofString text ++ rest).take 4 = Text.ofString start := by
    rw [List.take_append_of_le_length hlength, htake]
  obtain ⟨cause, index⟩ := fault
  cases cause <;> simp only [message, Cause.start, List.append_assoc] <;>
    exact hstart _ (by decide) (by decide)

theorem start_eq_of_message {left right : Fault} (heq : left.message = right.message) :
    left.cause.start = right.cause.start := by
  have htake := take_message left
  rw [heq, take_message] at htake
  exact Text.ofString_injective htake.symm

theorem index_eq_of_message {cause : Cause} {left right : Int}
    (heq : message ⟨cause, left⟩ = message ⟨cause, right⟩) : left = right := by
  cases cause with
  | unexpectedToken | illegalExpression | unmatchedParen | emptyExpression =>
      exact Text.ofInt_injective (List.append_cancel_left heq)
  | badDie => exact Text.ofInt_injective (List.append_cancel_left (List.append_cancel_right heq))

theorem token_eq_of_message {leftToken rightToken : CodePoint} {left right : Int}
    (heq : message ⟨.unexpectedToken leftToken, left⟩ =
      message ⟨.unexpectedToken rightToken, right⟩) : leftToken = rightToken := by
  simp only [message, List.append_assoc] at heq
  exact (Text.quoted_append_inj (List.append_cancel_left heq)).1

/-- Two faults with the same message are the same. -/
theorem message_injective {left right : Fault} (heq : left.message = right.message) :
    left = right := by
  have hstart := start_eq_of_message heq
  obtain ⟨leftCause, leftIndex⟩ := left
  obtain ⟨rightCause, rightIndex⟩ := right
  have hcause : leftCause = rightCause := by
    obtain ⟨token, rfl⟩ | hleft := token_or_plain leftCause
    · obtain ⟨other, rfl⟩ | hright := token_or_plain rightCause
      · rw [token_eq_of_message heq]
      · exact absurd hstart.symm (start_plain_ne _ hright)
    · obtain ⟨other, rfl⟩ | hright := token_or_plain rightCause
      · exact absurd hstart (start_plain_ne _ hleft)
      · exact start_injective_on_plain _ hleft _ hright hstart
  subst hcause
  rw [index_eq_of_message heq]

end Fault

end DiceOdds
