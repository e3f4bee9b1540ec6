import DiceOdds.Json.Lexeme
import DiceOdds.Json.Writer
import DiceOdds.Proofs.Text
import Mathlib.Data.List.Chain
import Mathlib.Tactic.SplitIfs

/-!
# Strings of JSON are read back

A written code point is read as one piece, or as two where it takes two halves.  The pieces join to
the text again unless the text holds two halves of its own next to each other, the high one first:
their escapes read as one character.
-/

namespace DiceOdds

namespace CodePoint

/-- The first half of a surrogate pair. -/
def IsHigh (point : CodePoint) : Prop :=
  0xd800 ≤ point.number ∧ point.number < 0xdc00

/-- The second half of a surrogate pair. -/
def IsLow (point : CodePoint) : Prop :=
  0xdc00 ≤ point.number ∧ point.number < 0xe000

end CodePoint

/-- No high half stands directly before a low one. -/
def Text.Joined (text : Text) : Prop :=
  text.IsChain fun left right => ¬ (left.IsHigh ∧ right.IsLow)

theorem Text.joined_singleton (point : CodePoint) : Text.Joined [point] :=
  .singleton point

theorem Text.joined_ofString (string : String) : (Text.ofString string).Joined := by
  have hscalar (character : Char) : ¬ (CodePoint.scalar character).IsHigh := by
    rintro ⟨hlow, hhigh⟩
    have hrange := CodePoint.number_scalar character
    omega
  refine (List.isChain_map CodePoint.scalar).2 (List.Pairwise.isChain ?_)
  exact List.pairwise_of_forall fun left _ hboth => hscalar left hboth.1

namespace Json

/-- The pieces as which a code point can be written. -/
inductive Spells : CodePoint → List Piece → Prop
  | plain (point : CodePoint) : Spells point [.plain point]
  | unit {point : CodePoint} (hnumber : point.number < 0x10000) :
      Spells point [.escaped point.number]
  | halves {point : CodePoint} (hnumber : 0x10000 ≤ point.number) :
      Spells point [.escaped (0xd800 + (point.number - 0x10000) / 0x400),
        .escaped (0xdc00 + (point.number - 0x10000) % 0x400)]

/-! ### Joining pieces -/

/-- An escaped low half comes first. -/
def StartsLow (pieces : List Piece) : Prop :=
  ∃ low rest, pieces = .escaped low :: rest ∧ 0xdc00 ≤ low ∧ low < 0xe000

theorem joinHalves_escaped {unit : Nat} {pieces : List Piece}
    (halone : ¬ (0xd800 ≤ unit ∧ unit < 0xdc00 ∧ StartsLow pieces)) :
    joinHalves (.escaped unit :: pieces) = unitPoint unit :: joinHalves pieces := by
  match pieces with
  | [] => rfl
  | .plain point :: rest => rfl
  | .escaped low :: rest =>
      rw [joinHalves, if_neg]
      rintro ⟨hhigh, hbelow, hlow⟩
      exact halone ⟨hhigh, hbelow, low, rest, rfl, hlow⟩

theorem unitPoint_number (point : CodePoint) : unitPoint point.number = point := by
  rw [unitPoint, CodePoint.ofNumber?_number, Option.getD_some]

/-- The halves of a number past `0xFFFF` put together. -/
theorem joinHalves_halves {number : Nat} (hnumber : 0x10000 ≤ number) (hbound : number < 0x110000)
    (pieces : List Piece) :
    joinHalves (.escaped (0xd800 + (number - 0x10000) / 0x400) ::
      .escaped (0xdc00 + (number - 0x10000) % 0x400) :: pieces) =
        unitPoint number :: joinHalves pieces := by
  have hvalue : 0x10000 + (0xd800 + (number - 0x10000) / 0x400 - 0xd800) * 0x400 +
      (0xdc00 + (number - 0x10000) % 0x400 - 0xdc00) = number := by
    omega
  rw [joinHalves, if_pos (by omega), hvalue]

theorem Spells.joinHalves_append {point : CodePoint} {spelling pieces : List Piece}
    (hspells : Spells point spelling) (hpieces : point.IsHigh → ¬ StartsLow pieces) :
    joinHalves (spelling ++ pieces) = point :: joinHalves pieces := by
  cases hspells with
  | plain => rfl
  | unit hnumber =>
      apply (joinHalves_escaped fun hpair => hpieces ⟨hpair.1, hpair.2.1⟩ hpair.2.2).trans
      rw [unitPoint_number]
  | halves hnumber =>
      apply (joinHalves_halves hnumber point.number_lt _).trans
      rw [unitPoint_number]
      rfl

theorem Spells.isLow_of_startsLow {point : CodePoint} {spelling pieces : List Piece}
    (hspells : Spells point spelling) (hlow : StartsLow (spelling ++ pieces)) : point.IsLow := by
  obtain ⟨low, rest, heq, hrange⟩ := hlow
  cases hspells with
  | plain => cases heq
  | unit => cases heq; exact hrange
  | halves hnumber =>
      cases heq
      have hbound := point.number_lt
      omega

/-! ### Reading pieces -/

theorem hexDigit?_digitChar :
    ∀ digit < 16, hexDigit? (.scalar (Nat.digitChar digit)) = some digit := by
  decide

theorem hex_four (unit : Nat) :
    Text.hex 4 unit =
      [.scalar (Nat.digitChar (unit / 4096 % 16)), .scalar (Nat.digitChar (unit / 256 % 16)),
        .scalar (Nat.digitChar (unit / 16 % 16)), .scalar (Nat.digitChar (unit % 16))] := by
  simp [Text.hex, Nat.div_div_eq_div_mul]

theorem pieces?_escapeUnit {unit : Nat} (hunit : unit < 0x10000) (rest : Text) :
    pieces? (escapeUnit unit ++ rest) =
      (pieces? rest).map fun found => (.escaped unit :: found.1, found.2) := by
  have hdigit (digit : Nat) :
      hexDigit? (.scalar (Nat.digitChar (digit % 16))) = some (digit % 16) :=
    hexDigit?_digitChar _ (Nat.mod_lt digit (by decide))
  have hvalue : unit / 4096 % 16 * 4096 + unit / 256 % 16 * 256 + unit / 16 % 16 * 16 +
      unit % 16 = unit := by
    omega
  rw [escapeUnit, hex_four]
  change pieces? (.scalar '\\' :: .scalar 'u' :: _ :: _ :: _ :: _ :: rest) = _
  simp only [pieces?, unit?, hdigit, Option.bind_eq_bind, Option.bind_some, hvalue]
  cases pieces? rest <;> rfl

theorem pieces?_escapedChar {mark : CodePoint} {character : Char}
    (hmark : escapedChar? mark = some character) (rest : Text) :
    pieces? (.scalar '\\' :: mark :: rest) =
      (pieces? rest).map fun found => (.plain (.scalar character) :: found.1, found.2) := by
  rw [pieces?, hmark]
  · cases pieces? rest <;> rfl
  · rintro _ _ _ _ _ rfl
    cases hmark

theorem pieces?_plain {point : CodePoint} (hquote : point ≠ .scalar '"')
    (hbackslash : point ≠ .scalar '\\') (hnumber : 0x20 ≤ point.number) (rest : Text) :
    pieces? (point :: rest) =
      (pieces? rest).map fun found => (.plain point :: found.1, found.2) := by
  rw [pieces?, if_neg (Nat.not_lt.2 hnumber)]
  · cases pieces? rest <;> rfl
  · exact hquote
  · intro _ _ _ _ _ heq
    exact absurd heq hbackslash
  · intro _ _ heq
    exact absurd heq hbackslash

/-- Whatever a code point is escaped as is read as its pieces. -/
theorem exists_spells_escape (point : CodePoint) :
    ∃ spelling, Spells point spelling ∧ ∀ rest,
      pieces? (escape point ++ rest) =
        (pieces? rest).map fun found => (spelling ++ found.1, found.2) := by
  have hshort {mark : CodePoint} {character : Char} (hmark : escapedChar? mark = some character) :
      ∃ spelling, Spells (.scalar character) spelling ∧ ∀ rest,
        pieces? ([.scalar '\\', mark] ++ rest) =
          (pieces? rest).map fun found => (spelling ++ found.1, found.2) :=
    ⟨_, .plain _, pieces?_escapedChar hmark⟩
  unfold escape
  split_ifs with hquote hbackslash hfeed hreturn htab hback hform hprintable hsmall
  · exact hquote ▸ hshort rfl
  · exact hbackslash ▸ hshort rfl
  · exact hfeed ▸ hshort rfl
  · exact hreturn ▸ hshort rfl
  · exact htab ▸ hshort rfl
  · exact hback ▸ hshort rfl
  · exact hform ▸ hshort rfl
  · exact ⟨_, .plain point, pieces?_plain hquote hbackslash hprintable.1⟩
  · exact ⟨_, .unit (by omega), pieces?_escapeUnit (by omega)⟩
  · refine ⟨_, .halves (by omega), fun rest => ?_⟩
    have hbound := point.number_lt
    rw [List.append_assoc, pieces?_escapeUnit (by omega), pieces?_escapeUnit (by omega),
      Option.map_map]
    rfl

/-- A written text is read as pieces that join to the text, and they start with a low half only if
the text does. -/
theorem exists_pieces_of_joined {text : Text} (hjoined : text.Joined) (rest : Text) :
    ∃ pieces, pieces? (text.flatMap escape ++ .scalar '"' :: rest) = some (pieces, rest) ∧
      joinHalves pieces = text ∧ (StartsLow pieces → ∃ point ∈ text.head?, point.IsLow) := by
  induction text with
  | nil =>
      refine ⟨[], by rw [List.flatMap_nil, List.nil_append, pieces?], rfl, ?_⟩
      rintro ⟨_, _, heq, -⟩
      cases heq
  | cons point text ih =>
      obtain ⟨hhead, htail⟩ := List.isChain_cons.1 hjoined
      obtain ⟨pieces, hpieces, hjoin, hlow⟩ := ih htail
      obtain ⟨spelling, hspells, hread⟩ := exists_spells_escape point
      refine ⟨spelling ++ pieces, ?_, ?_, fun hstarts => ?_⟩
      · rw [List.flatMap_cons, List.append_assoc, hread, hpieces, Option.map_some]
      · rw [hspells.joinHalves_append, hjoin]
        intro hhigh hstarts
        obtain ⟨next, hnext, hnextLow⟩ := hlow hstarts
        exact hhead next hnext ⟨hhigh, hnextLow⟩
      · exact ⟨point, rfl, hspells.isLow_of_startsLow hstarts⟩

theorem string?_escaped {text : Text} (hjoined : text.Joined) (rest : Text) :
    string? (text.flatMap escape ++ .scalar '"' :: rest) = some (text, rest) := by
  obtain ⟨pieces, hpieces, hjoin, -⟩ := exists_pieces_of_joined hjoined rest
  rw [string?, hpieces, ← hjoin]
  rfl

end Json

end DiceOdds
