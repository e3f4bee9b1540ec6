import DiceOdds.Json.Lexeme
import DiceOdds.Proofs.Text

/-!
# Numbers of JSON are read back

A numeral is read whole: none but zero starts with a zero, and the text after it goes on with
nothing that a number could hold.  What follows decides whether it is an integer or the mantissa of
a decimal.
-/

namespace DiceOdds.Json

/-- The text does not go on with a digit. -/
def EndsDigits (text : Text) : Prop :=
  ∀ point ∈ text.head?, point.digit? = none

/-- The text does not go on with anything that a number could hold. -/
def EndsNumber (text : Text) : Prop :=
  ∀ point ∈ text.head?, point.digit? = none ∧
    point ≠ .scalar '.' ∧ point ≠ .scalar 'e' ∧ point ≠ .scalar 'E'

theorem endsNumber_cons {point : CodePoint} (hdigit : point.digit? = none)
    (hpoint : point ≠ .scalar '.' ∧ point ≠ .scalar 'e' ∧ point ≠ .scalar 'E') (rest : Text) :
    EndsNumber (point :: rest) := by
  rintro _ ⟨⟩
  exact ⟨hdigit, hpoint⟩

theorem EndsNumber.endsDigits {text : Text} (hends : EndsNumber text) : EndsDigits text :=
  fun point hpoint => (hends point hpoint).1

/-! ### Runs of digits -/

/-- The values of the digits of a number. -/
def digitValues (size : Nat) : List Nat :=
  (Nat.toDigits 10 size).map fun digit => digit.toNat - '0'.toNat

theorem ofDigits_digitValues (size : Nat) : Text.ofDigits 10 (digitValues size) = size := by
  have hread : Nat.ofDigitChars 10 (Nat.toDigits 10 size) 0 = size :=
    Nat.ofDigitChars_ten_toDigits
  rw [Nat.ofDigitChars] at hread
  rw [Text.ofDigits, digitValues, List.foldl_map]
  simpa only [Nat.mul_comm] using hread

theorem length_digitValues_le_iff {size : Nat} :
    (digitValues size).length ≤ Text.digitLimit ↔ Text.Fits size := by
  rw [← Text.length_numeral_le_digitLimit_iff, Text.numeral, digitValues, List.length_map,
    List.length_map]

theorem digitValues_ne_nil (size : Nat) : digitValues size ≠ [] := by
  simp [digitValues]

theorem digits_of_endsDigits {text : Text} (hends : EndsDigits text) :
    digits text = ([], text) := by
  cases text with
  | nil => rfl
  | cons point rest => rw [digits, hends point rfl]

theorem digits_numeral_append (size : Nat) {rest : Text} (hrest : EndsDigits rest) :
    digits (Text.numeral size ++ rest) = (digitValues size, rest) := by
  have hrun (run : List Char) (hdigits : ∀ digit ∈ run, digit.isDigit = true) :
      digits (run.map CodePoint.scalar ++ rest) =
        (run.map fun digit => digit.toNat - '0'.toNat, rest) := by
    induction run with
    | nil => exact digits_of_endsDigits hrest
    | cons digit run ih =>
        obtain ⟨hdigit, hmore⟩ := List.forall_mem_cons.1 hdigits
        rw [List.map_cons, List.cons_append, digits, CodePoint.digit?_of_isDigit hdigit, ih hmore]
        rfl
  exact hrun _ (Text.isDigit_of_mem_toDigits_ten size)

theorem whole_numeral_append (size : Nat) {rest : Text} (hrest : EndsDigits rest) :
    whole (Text.numeral size ++ rest) = (digitValues size, rest) := by
  obtain rfl | hsize := Nat.eq_zero_or_pos size
  · rfl
  · rw [whole]
    · exact digits_numeral_append size hrest
    · intro after hzero
      have hhead := Text.head?_numeral_ne_zero hsize
      obtain ⟨digit, more, hnumeral, -⟩ := Text.exists_cons_numeral size
      rw [hnumeral] at hhead hzero
      exact hhead (congrArg List.head? hzero)

/-! ### What follows the digits -/

theorem fraction_of_ne_point {text : Text} (hpoint : ∀ point ∈ text.head?, point ≠ .scalar '.') :
    fraction text = ([], text) := by
  rw [fraction]
  rintro rest rfl
  exact hpoint _ rfl rfl

theorem exponent_of_endsNumber {text : Text} (hends : EndsNumber text) :
    exponent text = (none, text) := by
  rw [exponent]
  · rintro rest rfl
    exact (hends _ rfl).2.2.1 rfl
  · rintro rest rfl
    exact (hends _ rfl).2.2.2 rfl

theorem sign_numeral_append (size : Nat) (rest : Text) :
    sign (Text.numeral size ++ rest) = (false, Text.numeral size ++ rest) := by
  obtain ⟨digit, more, hnumeral, hdigit⟩ := Text.exists_cons_numeral size
  rw [hnumeral, sign]
  · rintro after heq
    cases heq
    cases hdigit
  · rintro after heq
    cases heq
    cases hdigit

theorem exponent_ofInt (power : Int) {rest : Text} (hrest : EndsDigits rest) :
    exponent (.scalar 'e' :: (Text.ofInt power ++ rest)) = (some power, rest) := by
  obtain hneg | hnonneg := Int.lt_or_le power 0
  · have hvalue : signed true (-power).toNat = power := by
      rw [signed, if_pos rfl]
      omega
    rw [Text.ofInt_of_neg hneg, exponent]
    simp only [List.cons_append, sign]
    rw [digits_numeral_append _ hrest, if_neg (digitValues_ne_nil _), ofDigits_digitValues, hvalue]
  · have hvalue : signed false power.toNat = power := by
      rw [signed, if_neg Bool.false_ne_true]
      omega
    rw [Text.ofInt_of_nonneg hnonneg, exponent]
    simp only [sign_numeral_append]
    rw [digits_numeral_append _ hrest, if_neg (digitValues_ne_nil _), ofDigits_digitValues, hvalue]

/-! ### Numbers -/

/-- A numeral is an integer, unless it is too long, or a decimal if an exponent follows. -/
theorem unsigned?_numeral_append (negative : Bool) (size : Nat) {rest : Text}
    (hrest : ∀ point ∈ rest.head?, point.digit? = none ∧ point ≠ .scalar '.')
    (hfits : (exponent rest).1 = none → Text.Fits size) :
    unsigned? negative (Text.numeral size ++ rest) =
      some (((exponent rest).1.elim (integer (signed negative size))
        (decimal (signed negative size)), (exponent rest).2)) := by
  have hdigits : EndsDigits rest := fun point hpoint => (hrest point hpoint).1
  have hfraction := fraction_of_ne_point fun point hpoint => (hrest point hpoint).2
  rw [unsigned?, whole_numeral_append size hdigits, if_neg (digitValues_ne_nil size)]
  simp only [hfraction, List.append_nil, ofDigits_digitValues]
  cases hpower : (exponent rest).1 with
  | none => rw [if_pos ⟨trivial, rfl⟩, if_pos (length_digitValues_le_iff.2 (hfits hpower))]; rfl
  | some power => simp

theorem number?_ofInt_append (value : Int) {rest : Text}
    (hrest : ∀ point ∈ rest.head?, point.digit? = none ∧ point ≠ .scalar '.')
    (hfits : (exponent rest).1 = none → Text.Fits value) :
    number? (Text.ofInt value ++ rest) =
      some (((exponent rest).1.elim (integer value) (decimal value), (exponent rest).2)) := by
  obtain hneg | hnonneg := Int.lt_or_le value 0
  · have hvalue : signed true (-value).toNat = value := by
      rw [signed, if_pos rfl]
      omega
    have hsize : ((-value).toNat : Int).natAbs = value.natAbs := by omega
    have hfits : (exponent rest).1 = none → Text.Fits (-value).toNat := by
      rwa [Text.Fits, hsize]
    rw [Text.ofInt_of_neg hneg, List.cons_append, number?,
      unsigned?_numeral_append _ _ hrest hfits, hvalue]
  · have hvalue : signed false value.toNat = value := by
      rw [signed, if_neg Bool.false_ne_true]
      omega
    obtain ⟨digit, more, hnumeral, hdigit⟩ := Text.exists_cons_numeral value.toNat
    have hread := unsigned?_numeral_append false value.toNat hrest
      (by rwa [Int.toNat_of_nonneg hnonneg])
    rw [Text.ofInt_of_nonneg hnonneg]
    rw [hvalue, hnumeral] at hread
    rw [hnumeral, number?, hread]
    rintro after heq
    cases heq
    cases hdigit

theorem number?_ofInt {value : Int} (hfits : Text.Fits value) {rest : Text}
    (hrest : EndsNumber rest) :
    number? (Text.ofInt value ++ rest) = some (integer value, rest) := by
  have hplaces : ∀ point ∈ rest.head?, point.digit? = none ∧ point ≠ .scalar '.' :=
    fun point hpoint => ⟨(hrest point hpoint).1, (hrest point hpoint).2.1⟩
  rw [number?_ofInt_append value hplaces fun _ => hfits, exponent_of_endsNumber hrest]
  rfl

/-- A numeral ends where no number goes on, so it can be told from what follows it. -/
theorem ofInt_append_inj {left right : Int} {leftRest rightRest : Text}
    (hleft : EndsNumber leftRest) (hright : EndsNumber rightRest)
    (heq : Text.ofInt left ++ leftRest = Text.ofInt right ++ rightRest) :
    left = right ∧ leftRest = rightRest := by
  -- an exponent may have any number of digits
  have hread := exponent_ofInt left hleft.endsDigits
  rw [heq, exponent_ofInt right hright.endsDigits, Prod.mk.injEq, Option.some.injEq] at hread
  exact ⟨hread.1.symm, hread.2.symm⟩

theorem number?_decimal (mantissa power : Int) {rest : Text} (hrest : EndsDigits rest) :
    number? (Text.ofInt mantissa ++ .scalar 'e' :: (Text.ofInt power ++ rest)) =
      some (decimal mantissa power, rest) := by
  have hpower := exponent_ofInt power hrest
  rw [number?_ofInt_append, hpower]
  · rfl
  · rintro point ⟨⟩
    exact ⟨rfl, by decide⟩
  · rw [hpower]
    exact nofun

end DiceOdds.Json
