import DiceOdds.Json.Writer
import DiceOdds.Proofs.Text
import Mathlib.Tactic.SplitIfs

/-!
# Written JSON is plain ASCII

Every code point past ASCII is written as an escape.
-/

namespace DiceOdds

/-- The text has no code point past ASCII. -/
def Text.Ascii (text : Text) : Prop :=
  ∀ point ∈ text, point.number < 0x80

instance (text : Text) : Decidable text.Ascii :=
  inferInstanceAs (Decidable (∀ point ∈ text, point.number < 0x80))

namespace Text

theorem Ascii.append {left right : Text} (hleft : left.Ascii) (hright : right.Ascii) :
    (left ++ right).Ascii := by
  intro point hmem
  obtain hmem | hmem := List.mem_append.1 hmem
  · exact hleft point hmem
  · exact hright point hmem

theorem Ascii.cons {point : CodePoint} {rest : Text} (hpoint : point.number < 0x80)
    (hrest : rest.Ascii) : Ascii (point :: rest) :=
  List.forall_mem_cons.2 ⟨hpoint, hrest⟩

theorem ascii_numeral (size : Nat) : (numeral size).Ascii := by
  intro point hmem
  obtain ⟨digit, hdigit, rfl⟩ := List.mem_map.1 hmem
  have hrange := isDigit_of_mem_toDigits_ten size digit hdigit
  simp only [Char.isDigit, Bool.and_eq_true, decide_eq_true_eq, ge_iff_le, UInt32.le_iff_toNat_le]
    at hrange
  have hupper : digit.val.toNat ≤ 57 := hrange.2
  exact Nat.lt_of_le_of_lt hupper (by decide)

theorem ascii_ofInt (value : Int) : (ofInt value).Ascii := by
  obtain hneg | hnonneg := Int.lt_or_le value 0
  · rw [ofInt_of_neg hneg]
    exact .cons (by decide) (ascii_numeral _)
  · rw [ofInt_of_nonneg hnonneg]
    exact ascii_numeral _

theorem ascii_hex (width value : Nat) : (hex width value).Ascii := by
  have hdigit : ∀ digit < 16, (Nat.digitChar digit).toNat < 0x80 := by decide
  induction width generalizing value with
  | zero => exact nofun
  | succ width ih =>
      have hlast := hdigit (value % 16) (Nat.mod_lt value (by decide))
      exact (ih (value / 16)).append (.cons hlast nofun)

end Text

namespace Json

theorem ascii_escapeUnit (unit : Nat) : (escapeUnit unit).Ascii :=
  Text.Ascii.append (by decide) (Text.ascii_hex 4 unit)

theorem ascii_escape (point : CodePoint) : (escape point).Ascii := by
  unfold escape
  split_ifs with _ _ _ _ _ _ _ hprintable
  · decide
  · decide
  · decide
  · decide
  · decide
  · decide
  · decide
  · exact .cons (by omega) nofun
  · exact ascii_escapeUnit _
  · exact (ascii_escapeUnit _).append (ascii_escapeUnit _)

theorem ascii_writeString (text : Text) : (writeString text).Ascii := by
  have hbody : Text.Ascii (text.flatMap escape) := by
    intro point hmem
    obtain ⟨origin, -, hpoint⟩ := List.mem_flatMap.1 hmem
    exact ascii_escape origin point hpoint
  exact Text.Ascii.append (.append (by decide) hbody) (by decide)

mutual

theorem ascii_write : ∀ value : Json, (write value).Ascii
  | null | bool true | bool false | nan | infinity true | infinity false => by decide
  | integer value => Text.ascii_ofInt value
  | decimal mantissa power =>
      .append (.append (Text.ascii_ofInt mantissa) (by decide)) (Text.ascii_ofInt power)
  | string text => ascii_writeString text
  | array elements => .cons (by decide) (ascii_writeElements elements)
  | object members => .cons (by decide) (ascii_writeMembers members)

theorem ascii_writeElements : ∀ elements : List Json, (writeElements elements).Ascii
  | [] => by decide
  | [element] => .append (ascii_write element) (by decide)
  | element :: next :: rest =>
      .append (ascii_write element) (.append (by decide) (ascii_writeElements (next :: rest)))

theorem ascii_writeMembers : ∀ members : List (Text × Json), (writeMembers members).Ascii
  | [] => by decide
  | [(key, value)] =>
      .append (ascii_writeString key) (.append (by decide)
        (.append (ascii_write value) (by decide)))
  | (key, value) :: next :: rest =>
      .append (ascii_writeString key) (.append (by decide)
        (.append (ascii_write value) (.append (by decide) (ascii_writeMembers (next :: rest)))))

end

end Json

end DiceOdds
