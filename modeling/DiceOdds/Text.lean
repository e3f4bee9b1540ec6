/-!
# Text as code points

A message may carry one half of a surrogate pair on its own, and such a half is counted and quoted
like any other position.  Text is therefore a list of code points, each of them a character or a
lone surrogate.
-/

namespace DiceOdds

/-- A Unicode code point.  `surrogate offset` is `0xD800 + offset`, the range that no character
occupies. -/
inductive CodePoint
  | scalar (character : Char)
  | surrogate (offset : Fin 2048)
  deriving DecidableEq

namespace CodePoint

def number : CodePoint → Nat
  | scalar character => character.toNat
  | surrogate offset => 0xD800 + offset

/-- The code point with a given number, if the number is below `0x110000`. -/
def ofNumber? (number : Nat) : Option CodePoint :=
  if hsurrogate : 0xD800 ≤ number ∧ number < 0xE000 then
    some (surrogate ⟨number - 0xD800, by omega⟩)
  else if number < 0x110000 then
    some (scalar (Char.ofNat number))
  else
    none

/-- The character itself, with the replacement character standing for a lone surrogate. -/
def toChar : CodePoint → Char
  | scalar character => character
  | surrogate _ => '\ufffd'

/-- The value of a decimal digit. -/
def digit? : CodePoint → Option Nat
  | scalar character =>
      if '0' ≤ character ∧ character ≤ '9' then some (character.toNat - '0'.toNat) else none
  | surrogate _ => none

end CodePoint

abbrev Text := List CodePoint

namespace Text

def ofString (string : String) : Text :=
  string.toList.map CodePoint.scalar

def toString (text : Text) : String :=
  String.ofList (text.map CodePoint.toChar)

/-- Decimal digits, after a minus sign if the integer is negative. -/
def ofInt (value : Int) : Text :=
  ofString (ToString.toString value)

/-- The most digits that an integer may have where it is written as a text or read from one. -/
def digitLimit : Nat := 4300

/-- The integer has few enough digits to be written and to be read. -/
def Fits (value : Int) : Prop :=
  value.natAbs.repr.length ≤ digitLimit

instance (value : Int) : Decidable (Fits value) :=
  inferInstanceAs (Decidable (_ ≤ _))

/-- The numeral of an integer, unless it has too many digits to be written. -/
def ofInt? (value : Int) : Option Text :=
  if Fits value then some (ofInt value) else none

/-- The number that a list of digits spells, the highest digit first. -/
def ofDigits (base : Nat) (digits : List Nat) : Nat :=
  digits.foldl (fun value digit => value * base + digit) 0

/-- The lowest `width` hexadecimal digits of `value`, in lower case. -/
def hex : (width value : Nat) → Text
  | 0, _ => []
  | width + 1, value => hex width (value / 16) ++ [.scalar (Nat.digitChar (value % 16))]

/-- The text after a word, if it starts with the word. -/
def after? : (word text : Text) → Option Text
  | [], text => some text
  | _ :: _, [] => none
  | expected :: word, point :: text => if expected = point then after? word text else none

theorem after?_eq_some_iff {word text rest : Text} :
    after? word text = some rest ↔ text = word ++ rest := by
  fun_induction after? word text with
  | case1 text => simp
  | case2 => simp
  | case3 word point text ih => simp [ih]
  | case4 expected word point text hne =>
      simp only [List.cons_append, List.cons.injEq, reduceCtorEq, false_iff, not_and]
      exact fun heq => absurd heq.symm hne

theorem ofInt?_eq_some_iff {value : Int} {text : Text} :
    ofInt? value = some text ↔ Fits value ∧ text = ofInt value := by
  rw [ofInt?, Option.ite_none_right_eq_some, Option.some.injEq, eq_comm (a := text)]

theorem ofInt?_eq_none_iff {value : Int} : ofInt? value = none ↔ ¬ Fits value := by
  simp [ofInt?]

@[simp]
theorem length_hex (width value : Nat) : (hex width value).length = width := by
  induction width generalizing value with
  | zero => rfl
  | succ width ih => simp [hex, ih]

@[simp]
theorem ofString_append (left right : String) :
    ofString (left ++ right) = ofString left ++ ofString right := by
  simp [ofString]

end Text

end DiceOdds
