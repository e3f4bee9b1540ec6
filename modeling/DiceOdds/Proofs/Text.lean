import DiceOdds.Text
import Mathlib.Algebra.Group.Int.Defs
import Mathlib.Algebra.Group.Nat.Defs
import Std.Data.String.ToInt

/-!
# Numbers of code points and numerals of numbers

A code point is known by its number, an integer by its decimal numeral and a number of limited size
by its hexadecimal digits.
-/

namespace DiceOdds

namespace CodePoint

theorem number_scalar (character : Char) :
    (scalar character).number < 0xD800 ∨
      0xE000 ≤ (scalar character).number ∧ (scalar character).number < 0x110000 := by
  have hvalid := character.valid
  have hnumber : (scalar character).number = character.val.toNat := rfl
  simp only [UInt32.isValidChar, Nat.isValidChar] at hvalid
  omega

theorem ofNumber?_number (point : CodePoint) : ofNumber? point.number = some point := by
  cases point with
  | scalar character =>
      have hrange := number_scalar character
      rw [ofNumber?, dif_neg (by omega), if_pos (by omega), number, Char.ofNat_toNat]
  | surrogate offset =>
      have hoffset := offset.isLt
      have hrange : 0xD800 ≤ 0xD800 + offset.val ∧ 0xD800 + offset.val < 0xE000 := by omega
      simp only [number, ofNumber?, dif_pos hrange, Nat.add_sub_cancel_left]

theorem number_injective {left right : CodePoint} (heq : left.number = right.number) :
    left = right := by
  have hsame := ofNumber?_number left
  rw [heq, ofNumber?_number] at hsame
  exact (Option.some.inj hsame).symm

theorem number_lt (point : CodePoint) : point.number < 0x110000 := by
  cases point with
  | scalar character =>
      have hrange := number_scalar character
      omega
  | surrogate offset =>
      have hoffset := offset.isLt
      rw [number]
      omega

theorem digit?_of_isDigit {digit : Char} (hdigit : digit.isDigit = true) :
    (scalar digit).digit? = some (digit.toNat - '0'.toNat) := by
  have hrange : '0' ≤ digit ∧ digit ≤ '9' := by
    simpa [Char.isDigit, Char.le_def] using hdigit
  rw [digit?, if_pos hrange]

end CodePoint

namespace Text

theorem ofString_injective {left right : String} (heq : ofString left = ofString right) :
    left = right := by
  have hchars : left.toList = right.toList :=
    (List.map_inj_right fun _ _ => CodePoint.scalar.inj).1 heq
  exact String.toList_inj.1 hchars

/-! ### Decimal numerals -/

theorem ofInt_injective {left right : Int} (heq : ofInt left = ofInt right) : left = right := by
  have hnumeral : left.repr = right.repr := ofString_injective heq
  have hread := Int.toInt?_repr left
  rw [hnumeral, Int.toInt?_repr] at hread
  exact (Option.some.inj hread).symm

/-- The decimal digits of a number. -/
def numeral (size : Nat) : Text :=
  (Nat.toDigits 10 size).map CodePoint.scalar

theorem ofInt_of_nonneg {value : Int} (hvalue : 0 ≤ value) :
    ofInt value = numeral value.toNat := by
  rw [ofInt, ofString, Int.toString_eq_repr, Int.repr_eq_if, if_pos hvalue, Nat.toList_repr,
    numeral]

theorem ofInt_of_neg {value : Int} (hvalue : value < 0) :
    ofInt value = .scalar '-' :: numeral (-value).toNat := by
  rw [ofInt, Int.toString_eq_repr, Int.repr_eq_if, if_neg (Int.not_le.2 hvalue), ofString_append,
    ofString, ofString, Nat.toList_repr, numeral]
  rfl

theorem length_numeral_le_digitLimit_iff {size : Nat} :
    (numeral size).length ≤ digitLimit ↔ Fits size := by
  rw [Fits, Int.natAbs_natCast, numeral, List.length_map, ← Nat.toList_repr, String.length_toList]

theorem fits_iff {value : Int} : Fits value ↔ value.natAbs < 10 ^ digitLimit := by
  have hlimit : 0 < digitLimit := by decide
  rw [Fits]
  generalize digitLimit = limit at hlimit ⊢
  exact Nat.length_repr_le_iff hlimit

theorem natAbs_pow_digitLimit : ((10 : Int) ^ digitLimit).natAbs = 10 ^ digitLimit := by
  generalize digitLimit = limit
  exact Int.natAbs_pow 10 limit

/-- The least positive integer with too many digits. -/
theorem not_fits_pow_digitLimit : ¬ Fits (10 ^ digitLimit) := by
  rw [fits_iff, natAbs_pow_digitLimit]
  exact Nat.lt_irrefl _

theorem fits_pow_digitLimit_sub_one : Fits (10 ^ digitLimit - 1) := by
  have hpositive : (0 : Int) < 10 ^ digitLimit := Int.pow_pos (by decide)
  have hlimit := natAbs_pow_digitLimit
  refine fits_iff.2 ?_
  generalize (10 : Int) ^ digitLimit = limit, 10 ^ digitLimit = bound at hpositive hlimit ⊢
  omega

/-- An integer between two that fit fits as well. -/
theorem Fits.between {low value high : Int} (hlow : Fits low) (hhigh : Fits high)
    (hge : low ≤ value) (hle : value ≤ high) : Fits value := by
  rw [fits_iff] at hlow hhigh ⊢
  omega

theorem isDigit_of_mem_toDigits_ten (value : Nat) :
    ∀ digit ∈ Nat.toDigits 10 value, digit.isDigit = true :=
  fun _ hmem => Nat.isDigit_of_mem_toDigits (by decide) (by decide) hmem

theorem exists_cons_numeral (size : Nat) :
    ∃ digit rest, numeral size = .scalar digit :: rest ∧ digit.isDigit = true := by
  have hdigits := isDigit_of_mem_toDigits_ten size
  cases hrun : Nat.toDigits 10 size with
  | nil => exact absurd hrun Nat.toDigits_ne_nil
  | cons digit rest =>
      rw [hrun] at hdigits
      exact ⟨digit, _, congrArg (List.map CodePoint.scalar) hrun, hdigits _ List.mem_cons_self⟩

/-- Only zero has a numeral that starts with a zero. -/
theorem head?_numeral_ne_zero {size : Nat} (hsize : 0 < size) :
    (numeral size).head? ≠ some (.scalar '0') := by
  induction size using Nat.strongRecOn with
  | ind size ih =>
      obtain hsmall | hlarge := Nat.lt_or_ge size 10
      · rw [numeral, Nat.toDigits_of_lt_base hsmall]
        intro hzero
        have hdigit : Nat.digitChar size = '0' := CodePoint.scalar.inj (Option.some.inj hzero)
        rw [Nat.digitChar_eq_zero] at hdigit
        omega
      · obtain ⟨digit, rest, hquotient, -⟩ := exists_cons_numeral (size / 10)
        have hfirst := ih (size / 10) (by omega) (by omega)
        have hsplit : numeral size =
            numeral (size / 10) ++ [.scalar (Nat.digitChar (size % 10))] := by
          rw [numeral, Nat.toDigits_of_base_le (by decide) hlarge, List.map_append]
          rfl
        rw [hquotient] at hfirst hsplit
        rwa [hsplit]

/-! ### Hexadecimal digits -/

theorem digitChar_injective :
    ∀ left < 16, ∀ right < 16, Nat.digitChar left = Nat.digitChar right → left = right := by
  decide

/-- Digits in sufficient number tell two numbers apart. -/
theorem hex_injective {width left right : Nat} (hleft : left < 16 ^ width)
    (hright : right < 16 ^ width) (heq : hex width left = hex width right) : left = right := by
  induction width generalizing left right with
  | zero => omega
  | succ width ih =>
      rw [hex, hex] at heq
      obtain ⟨hfront, hlast⟩ := List.append_inj' heq rfl
      have hquotient := ih (by omega) (by omega) hfront
      have hremainder := digitChar_injective _ (Nat.mod_lt left (by decide)) _
        (Nat.mod_lt right (by decide)) (CodePoint.scalar.inj (List.cons.inj hlast).1)
      omega

end Text

end DiceOdds
