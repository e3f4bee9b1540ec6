import DiceOdds.Json.Reader
import DiceOdds.Proofs.Json.Numbers
import DiceOdds.Proofs.Json.Strings

/-!
# Written JSON is read back

Reading a written value gives the value, as long as no integer in it has too many digits and no
string in it holds two halves of a surrogate pair on their own next to each other.  Each step of the
reader passes a character that the writer put there, so the length of the text is enough of a bound.
-/

namespace DiceOdds.Json

mutual

/-- No integer of the value has too many digits, and no string of it holds a high half directly
before a low one. -/
def Readable : Json → Prop
  | integer value => Text.Fits value
  | string value => value.Joined
  | array elements => ReadableElements elements
  | object members => ReadableMembers members
  | _ => True

def ReadableElements : List Json → Prop
  | [] => True
  | element :: rest => element.Readable ∧ ReadableElements rest

def ReadableMembers : List (Text × Json) → Prop
  | [] => True
  | (key, value) :: rest => key.Joined ∧ value.Readable ∧ ReadableMembers rest

end

/-! ### Blanks -/

theorem skipBlank_of_head {point : CodePoint} (hpoint : isBlank point = false) (rest : Text) :
    skipBlank (point :: rest) = point :: rest := by
  rw [skipBlank, List.dropWhile_cons, hpoint]
  rfl

theorem value?_blank (steps : Nat) (text : Text) :
    value? steps (.scalar ' ' :: text) = value? steps text := by
  cases steps with
  | zero => rw [value?, value?]
  | succ steps => rw [value?, value?]; rfl

theorem elements?_blank (steps : Nat) (text : Text) :
    elements? steps (.scalar ' ' :: text) = elements? steps text := by
  cases steps with
  | zero => rw [elements?, elements?]
  | succ steps => rw [elements?, elements?, value?_blank]

theorem key?_blank (text : Text) : key? (.scalar ' ' :: text) = key? text := rfl

theorem members?_blank (steps : Nat) (text : Text) :
    members? steps (.scalar ' ' :: text) = members? steps text := by
  cases steps with
  | zero => rw [members?, members?]
  | succ steps => rw [members?, members?, key?_blank]

/-! ### Words and numbers -/

theorem value?_of_atom? {steps : Nat} {point : CodePoint} {rest : Text}
    (hblank : isBlank point = false) (harray : point ≠ .scalar '[')
    (hobject : point ≠ .scalar '\x7b') :
    value? (steps + 1) (point :: rest) = atom? (point :: rest) := by
  rw [value?, skipBlank_of_head hblank]
  split
  · rename_i heq
    exact absurd (List.cons.inj heq).1 harray
  · rename_i heq
    exact absurd (List.cons.inj heq).1 hobject
  · rfl

theorem scalar_ne_of_isDigit {digit character : Char} (hdigit : digit.isDigit = true)
    (hcharacter : character.isDigit = false) :
    CodePoint.scalar digit ≠ .scalar character := by
  rintro ⟨⟩
  rw [hdigit] at hcharacter
  cases hcharacter

theorem isBlank_of_isDigit {digit : Char} (hdigit : digit.isDigit = true) :
    isBlank (.scalar digit) = false := by
  have hne {character : Char} (hcharacter : character.isDigit = false) :
      CodePoint.scalar digit ≠ .scalar character :=
    scalar_ne_of_isDigit hdigit hcharacter
  simp [isBlank, hne]

/-- A numeral, with or without a minus, is none of the words. -/
theorem value?_ofInt_append (steps : Nat) (value : Int) (rest : Text) :
    value? (steps + 1) (Text.ofInt value ++ rest) = number? (Text.ofInt value ++ rest) := by
  obtain hneg | hnonneg := Int.lt_or_le value 0
  · obtain ⟨digit, more, hnumeral, hdigit⟩ := Text.exists_cons_numeral (-value).toNat
    have hword : constant? (.scalar '-' :: .scalar digit :: (more ++ rest)) = none := by
      have hne : CodePoint.scalar digit ≠ .scalar 'I' := scalar_ne_of_isDigit hdigit rfl
      simp [constant?, constants, Text.ofString, Text.after?, hne.symm]
    rw [Text.ofInt_of_neg hneg, hnumeral]
    change value? (steps + 1) (.scalar '-' :: .scalar digit :: (more ++ rest)) = _
    rw [value?_of_atom? rfl (by decide) (by decide), atom?, hword, Option.none_or]
    · rfl
    · intro _ heq
      cases heq
  · obtain ⟨digit, more, hnumeral, hdigit⟩ := Text.exists_cons_numeral value.toNat
    have hne {character : Char} (hcharacter : character.isDigit = false) :
        CodePoint.scalar digit ≠ .scalar character :=
      scalar_ne_of_isDigit hdigit hcharacter
    have hword : constant? (.scalar digit :: (more ++ rest)) = none := by
      simp [constant?, constants, Text.ofString, Text.after?, (hne _).symm]
    rw [Text.ofInt_of_nonneg hnonneg, hnumeral, List.cons_append,
      value?_of_atom? (isBlank_of_isDigit hdigit) (hne rfl) (hne rfl), atom?, hword, Option.none_or]
    intro _ heq
    exact hne rfl (List.cons.inj heq).1

theorem writeString_append (text rest : Text) :
    writeString text ++ rest =
      .scalar '"' :: (text.flatMap escape ++ .scalar '"' :: rest) := by
  simp [writeString]

theorem value?_writeString {text : Text} (hjoined : text.Joined) (steps : Nat) (rest : Text) :
    value? (steps + 1) (writeString text ++ rest) = some (string text, rest) := by
  rw [writeString_append]
  change (string? (text.flatMap escape ++ .scalar '"' :: rest)).map _ = _
  rw [string?_escaped hjoined]
  rfl

/-! ### Arrays and objects -/

theorem value?_array {point : CodePoint} (hblank : isBlank point = false)
    (hclose : point ≠ .scalar ']') (steps : Nat) (rest : Text) :
    value? (steps + 1) (.scalar '[' :: point :: rest) =
      (elements? steps (point :: rest)).map fun found => (array found.1, found.2) := by
  rw [value?, skipBlank_of_head rfl]
  simp only [skipBlank_of_head hblank]
  split
  · rename_i heq
    exact absurd (List.cons.inj heq).1 hclose
  · cases elements? steps (point :: rest) <;> rfl

theorem value?_object (steps : Nat) (rest : Text) :
    value? (steps + 1) (.scalar '\x7b' :: .scalar '"' :: rest) =
      (members? steps (.scalar '"' :: rest)).map fun found => (object found.1, found.2) := by
  have hquote : isBlank (.scalar '"') = false := rfl
  rw [value?, skipBlank_of_head rfl]
  simp only [skipBlank_of_head hquote]
  cases members? steps (.scalar '"' :: rest) <;> rfl

theorem elements?_last {steps : Nat} {text rest : Text} {element : Json}
    (helement : value? steps text = some (element, .scalar ']' :: rest)) :
    elements? (steps + 1) text = some ([element], rest) := by
  rw [elements?, helement]
  rfl

theorem elements?_more {steps : Nat} {text rest : Text} {element : Json}
    (helement : value? steps text = some (element, .ofString ", " ++ rest)) :
    elements? (steps + 1) text =
      (elements? steps rest).map fun found => (element :: found.1, found.2) := by
  rw [elements?, helement]
  change (elements? steps (.scalar ' ' :: rest)).bind _ = _
  rw [elements?_blank]
  cases elements? steps rest <;> rfl

theorem key?_writeString {key : Text} (hjoined : key.Joined) (rest : Text) :
    key? (writeString key ++ (.ofString ": " ++ rest)) = some (key, .scalar ' ' :: rest) := by
  rw [writeString_append]
  change (string? (key.flatMap escape ++ CodePoint.scalar '"' :: _)).bind _ = _
  rw [string?_escaped hjoined]
  rfl

theorem members?_last {steps : Nat} {text after rest : Text} {key : Text} {value : Json}
    (hkey : key? text = some (key, after))
    (hvalue : value? steps after = some (value, .scalar '\x7d' :: rest)) :
    members? (steps + 1) text = some ([(key, value)], rest) := by
  rw [members?, hkey]
  change (value? steps after).bind _ = _
  rw [hvalue]
  rfl

theorem members?_more {steps : Nat} {text after rest : Text} {key : Text} {value : Json}
    (hkey : key? text = some (key, after))
    (hvalue : value? steps after = some (value, .ofString ", " ++ rest)) :
    members? (steps + 1) text =
      (members? steps rest).map fun found => ((key, value) :: found.1, found.2) := by
  rw [members?, hkey]
  change (value? steps after).bind _ = _
  rw [hvalue]
  change (members? steps (.scalar ' ' :: rest)).bind _ = _
  rw [members?_blank]
  cases members? steps rest <;> rfl

/-! ### Values -/

/-- Every written value starts with a character that is no blank and closes no array. -/
theorem exists_cons_write (value : Json) :
    ∃ point rest, write value = point :: rest ∧ isBlank point = false ∧ point ≠ .scalar ']' := by
  have hnumeral (number : Int) (after : Text) :
      ∃ point rest, Text.ofInt number ++ after = point :: rest ∧ isBlank point = false ∧
        point ≠ .scalar ']' := by
    obtain hneg | hnonneg := Int.lt_or_le number 0
    · rw [Text.ofInt_of_neg hneg]
      exact ⟨_, _, rfl, rfl, by decide⟩
    · obtain ⟨digit, more, hdigits, hdigit⟩ := Text.exists_cons_numeral number.toNat
      rw [Text.ofInt_of_nonneg hnonneg, hdigits]
      exact ⟨_, _, rfl, isBlank_of_isDigit hdigit, scalar_ne_of_isDigit hdigit rfl⟩
  cases value with
  | null | nan | string | array | object => exact ⟨_, _, rfl, rfl, by decide⟩
  | bool value => cases value <;> exact ⟨_, _, rfl, rfl, by decide⟩
  | infinity negative => cases negative <;> exact ⟨_, _, rfl, rfl, by decide⟩
  | integer number =>
      rw [write, ← List.append_nil (Text.ofInt number)]
      exact hnumeral number []
  | decimal mantissa power =>
      rw [write, List.append_assoc]
      exact hnumeral mantissa _

theorem writeElements_cons_cons (element next : Json) (elements : List Json) :
    writeElements (element :: next :: elements) =
      write element ++ (.ofString ", " ++ writeElements (next :: elements)) :=
  rfl

theorem writeMembers_cons_cons (key : Text) (value : Json) (next : Text × Json)
    (members : List (Text × Json)) :
    writeMembers ((key, value) :: next :: members) =
      writeString key ++ (.ofString ": " ++
        (write value ++ (.ofString ", " ++ writeMembers (next :: members)))) :=
  rfl

theorem exists_cons_writeElements (element : Json) (elements : List Json) :
    ∃ point rest, writeElements (element :: elements) = point :: rest ∧
      isBlank point = false ∧ point ≠ .scalar ']' := by
  obtain ⟨point, rest, hwrite, hpoint⟩ := exists_cons_write element
  cases elements with
  | nil => exact ⟨point, _, by rw [writeElements, hwrite, List.cons_append], hpoint⟩
  | cons next elements =>
      exact ⟨point, _, by rw [writeElements_cons_cons, hwrite, List.cons_append], hpoint⟩

theorem exists_cons_writeMembers (member : Text × Json) (members : List (Text × Json)) :
    ∃ rest, writeMembers (member :: members) = .scalar '"' :: rest := by
  obtain ⟨key, value⟩ := member
  cases members with
  | nil => exact ⟨_, by rw [writeMembers, writeString_append]⟩
  | cons next members => exact ⟨_, by rw [writeMembers_cons_cons, writeString_append]⟩

/-- So many steps are enough to read back whatever is no longer than half of them, wherever the text
does not go on with part of a number. -/
structure ReadsBack (steps : Nat) : Prop where
  value : ∀ value : Json, value.Readable → 2 * (write value).length ≤ steps →
    ∀ rest, EndsNumber rest → value? steps (write value ++ rest) = some (value, rest)
  elements : ∀ element elements, ReadableElements (element :: elements) →
    2 * (writeElements (element :: elements)).length ≤ steps →
    ∀ rest, elements? steps (writeElements (element :: elements) ++ rest) =
      some (element :: elements, rest)
  members : ∀ member members, ReadableMembers (member :: members) →
    2 * (writeMembers (member :: members)).length ≤ steps →
    ∀ rest, members? steps (writeMembers (member :: members) ++ rest) =
      some (member :: members, rest)

theorem ReadsBack.value_succ {steps : Nat} (hsteps : ReadsBack steps) (value : Json)
    (hreadable : value.Readable) (hlength : 2 * (write value).length ≤ steps + 1) (rest : Text)
    (hrest : EndsNumber rest) : value? (steps + 1) (write value ++ rest) = some (value, rest) := by
  match value, hreadable with
  | null, _ | bool true, _ | bool false, _ | nan, _ | infinity true, _ | infinity false, _ => rfl
  | integer number, hfits => rw [write, value?_ofInt_append, number?_ofInt hfits hrest]
  | decimal mantissa power, _ =>
      rw [write, List.append_assoc, List.append_assoc, value?_ofInt_append]
      exact number?_decimal mantissa power hrest.endsDigits
  | string text, hreadable => exact value?_writeString hreadable steps rest
  | array [], _ => rfl
  | array (element :: elements), hreadable =>
      obtain ⟨point, more, hwrite, hblank, hclose⟩ := exists_cons_writeElements element elements
      rw [write, List.length_cons] at hlength
      have hread := hsteps.elements element elements hreadable (by omega) rest
      rw [write, List.cons_append]
      rw [hwrite, List.cons_append] at hread ⊢
      rw [value?_array hblank hclose, hread]
      rfl
  | object [], _ => rfl
  | object (member :: members), hreadable =>
      obtain ⟨more, hwrite⟩ := exists_cons_writeMembers member members
      rw [write, List.length_cons] at hlength
      have hread := hsteps.members member members hreadable (by omega) rest
      rw [write, List.cons_append]
      rw [hwrite, List.cons_append] at hread ⊢
      rw [value?_object, hread]
      rfl

theorem ReadsBack.elements_succ {steps : Nat} (hsteps : ReadsBack steps) (element : Json)
    (elements : List Json) (hreadable : ReadableElements (element :: elements))
    (hlength : 2 * (writeElements (element :: elements)).length ≤ steps + 1) (rest : Text) :
    elements? (steps + 1) (writeElements (element :: elements) ++ rest) =
      some (element :: elements, rest) := by
  cases elements with
  | nil =>
      rw [writeElements, List.length_append, List.length_singleton] at hlength
      rw [writeElements, List.append_assoc]
      exact elements?_last (hsteps.value element hreadable.1 (by omega) _
        (endsNumber_cons rfl (by decide) rest))
  | cons next elements =>
      have hcomma : (Text.ofString ", ").length = 2 := rfl
      rw [writeElements_cons_cons, List.length_append, List.length_append, hcomma] at hlength
      have hmore := hsteps.elements next elements hreadable.2 (by omega) rest
      rw [writeElements_cons_cons, List.append_assoc, List.append_assoc,
        elements?_more (hsteps.value element hreadable.1 (by omega) _
          (endsNumber_cons rfl (by decide) _)), hmore]
      rfl

theorem ReadsBack.members_succ {steps : Nat} (hsteps : ReadsBack steps) (member : Text × Json)
    (members : List (Text × Json)) (hreadable : ReadableMembers (member :: members))
    (hlength : 2 * (writeMembers (member :: members)).length ≤ steps + 1) (rest : Text) :
    members? (steps + 1) (writeMembers (member :: members) ++ rest) =
      some (member :: members, rest) := by
  obtain ⟨key, value⟩ := member
  obtain ⟨hkey, hvalue, hmembers⟩ := hreadable
  have hcolon : (Text.ofString ": ").length = 2 := rfl
  cases members with
  | nil =>
      rw [writeMembers, List.length_append, List.length_append, hcolon, List.length_append,
        List.length_singleton] at hlength
      rw [writeMembers, List.append_assoc, List.append_assoc, List.append_assoc]
      refine members?_last (key?_writeString hkey _) ?_
      rw [value?_blank]
      exact hsteps.value value hvalue (by omega) _ (endsNumber_cons rfl (by decide) rest)
  | cons next members =>
      have hcomma : (Text.ofString ", ").length = 2 := rfl
      rw [writeMembers_cons_cons, List.length_append, List.length_append, hcolon,
        List.length_append, List.length_append, hcomma] at hlength
      have hmore := hsteps.members next members hmembers (by omega) rest
      have hcommaEnds (after : Text) : EndsNumber (.ofString ", " ++ after) :=
        endsNumber_cons rfl (by decide) _
      have hread := hsteps.value value hvalue (by omega) _
        (hcommaEnds (writeMembers (next :: members) ++ rest))
      rw [← value?_blank] at hread
      rw [writeMembers_cons_cons, List.append_assoc, List.append_assoc, List.append_assoc,
        List.append_assoc, members?_more (key?_writeString hkey _) hread, hmore]
      rfl

theorem readsBack (steps : Nat) : ReadsBack steps := by
  induction steps with
  | zero =>
      constructor
      · intro value _ hlength
        obtain ⟨point, rest, hwrite, -⟩ := exists_cons_write value
        rw [hwrite, List.length_cons] at hlength
        omega
      · intro element elements _ hlength
        obtain ⟨point, rest, hwrite, -⟩ := exists_cons_writeElements element elements
        rw [hwrite, List.length_cons] at hlength
        omega
      · intro member members _ hlength
        obtain ⟨rest, hwrite⟩ := exists_cons_writeMembers member members
        rw [hwrite, List.length_cons] at hlength
        omega
  | succ steps ih => exact ⟨ih.value_succ, ih.elements_succ, ih.members_succ⟩

/-- Reading what was written gives the value. -/
theorem read?_write {value : Json} (hreadable : value.Readable) :
    read? (write value) = some value := by
  have hread := (readsBack (2 * (write value).length + 1)).value value hreadable (by omega) []
    (by simp [EndsNumber])
  rw [List.append_nil] at hread
  rw [read?, hread]
  rfl

end DiceOdds.Json
