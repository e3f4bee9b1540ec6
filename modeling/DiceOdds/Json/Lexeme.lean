import DiceOdds.Json

/-!
# The words of JSON

Blanks, constants, numbers and strings, each read from the front of a text.  Every reading returns
what it found and the text that is left.
-/

namespace DiceOdds.Json

/-! ### Blanks and constants -/

def isBlank (point : CodePoint) : Bool :=
  point == .scalar ' ' || point == .scalar '\t' || point == .scalar '\n' || point == .scalar '\r'

def skipBlank (text : Text) : Text :=
  text.dropWhile isBlank

/-- The values that are written as a word. -/
def constants : List (Text × Json) :=
  [(.ofString "null", null), (.ofString "true", bool true), (.ofString "false", bool false),
    (.ofString "NaN", nan), (.ofString "Infinity", infinity false),
    (.ofString "-Infinity", infinity true)]

def constant? (text : Text) : Option (Json × Text) :=
  constants.findSome? fun (word, value) => (Text.after? word text).map fun rest => (value, rest)

/-! ### Numbers -/

/-- The longest run of digits that starts the text, and the text after it. -/
def digits : Text → List Nat × Text
  | [] => ([], [])
  | point :: rest =>
      match point.digit? with
      | some digit => (digit :: (digits rest).1, (digits rest).2)
      | none => ([], point :: rest)

def signed (negative : Bool) (size : Nat) : Int :=
  if negative then -size else size

/-- The digits after a point.  A point without a digit after it is not part of the number. -/
def fraction (text : Text) : List Nat × Text :=
  match text with
  | .scalar '.' :: rest => if (digits rest).1 = [] then ([], text) else digits rest
  | _ => ([], text)

/-- An optional sign, `true` for a minus. -/
def sign : Text → Bool × Text
  | .scalar '-' :: rest => (true, rest)
  | .scalar '+' :: rest => (false, rest)
  | text => (false, text)

/-- The exponent of ten.  An `e` without digits after it is not part of the number. -/
def exponent (text : Text) : Option Int × Text :=
  match text with
  | .scalar 'e' :: rest | .scalar 'E' :: rest =>
      let found := digits (sign rest).2
      if found.1 = [] then (none, text)
      else (some (signed (sign rest).1 (Text.ofDigits 10 found.1)), found.2)
  | _ => (none, text)

/-- The digits before the point.  A leading zero stands alone. -/
def whole : Text → List Nat × Text
  | .scalar '0' :: rest => ([0], rest)
  | text => digits text

/-- A number without its sign.  An integer with too many digits is none, but a decimal may have any
number of digits. -/
def unsigned? (negative : Bool) (text : Text) : Option (Json × Text) :=
  if (whole text).1 = [] then none
  else
    let places := fraction (whole text).2
    let power := exponent places.2
    let mantissa := signed negative (Text.ofDigits 10 ((whole text).1 ++ places.1))
    if places.1 = [] ∧ power.1 = none then
      if (whole text).1.length ≤ Text.digitLimit then some (integer mantissa, power.2) else none
    else some (decimal mantissa (power.1.getD 0 - places.1.length), power.2)

def number? : Text → Option (Json × Text)
  | .scalar '-' :: rest => unsigned? true rest
  | text => unsigned? false text

/-! ### Strings -/

/-- A piece of a string: a code point as it stands, or an escaped unit of sixteen bits. -/
inductive Piece
  | plain (point : CodePoint)
  | escaped (unit : Nat)

def hexDigit? (point : CodePoint) : Option Nat :=
  match point.digit?, point with
  | some digit, _ => some digit
  | none, .scalar character =>
      if 'a' ≤ character ∧ character ≤ 'f' then some (character.toNat - 'a'.toNat + 10)
      else if 'A' ≤ character ∧ character ≤ 'F' then some (character.toNat - 'A'.toNat + 10)
      else none
  | none, .surrogate _ => none

def unit? (first second third fourth : CodePoint) : Option Nat := do
  let first ← hexDigit? first
  let second ← hexDigit? second
  let third ← hexDigit? third
  let fourth ← hexDigit? fourth
  some (first * 4096 + second * 256 + third * 16 + fourth)

/-- The character that a backslash and one more character stand for. -/
def escapedChar? : CodePoint → Option Char
  | .scalar '"' => some '"'
  | .scalar '\\' => some '\\'
  | .scalar '/' => some '/'
  | .scalar 'b' => some '\x08'
  | .scalar 'f' => some '\x0c'
  | .scalar 'n' => some '\n'
  | .scalar 'r' => some '\r'
  | .scalar 't' => some '\t'
  | _ => none

/-- The pieces of a string up to its closing quote, and the text after the quote. -/
def pieces? : Text → Option (List Piece × Text)
  | [] => none
  | .scalar '"' :: rest => some ([], rest)
  | .scalar '\\' :: .scalar 'u' :: first :: second :: third :: fourth :: rest => do
      let unit ← unit? first second third fourth
      let (pieces, rest) ← pieces? rest
      some (.escaped unit :: pieces, rest)
  | .scalar '\\' :: mark :: rest => do
      let character ← escapedChar? mark
      let (pieces, rest) ← pieces? rest
      some (.plain (.scalar character) :: pieces, rest)
  | point :: rest =>
      if point.number < 0x20 then none
      else do
        let (pieces, rest) ← pieces? rest
        some (.plain point :: pieces, rest)

def unitPoint (unit : Nat) : CodePoint :=
  (CodePoint.ofNumber? unit).getD (.scalar '\ufffd')

/-- An escaped high half directly before an escaped low half joins with it to one character. -/
def joinHalves : List Piece → Text
  | [] => []
  | .escaped high :: .escaped low :: rest =>
      if 0xd800 ≤ high ∧ high < 0xdc00 ∧ 0xdc00 ≤ low ∧ low < 0xe000 then
        unitPoint (0x10000 + (high - 0xd800) * 0x400 + (low - 0xdc00)) :: joinHalves rest
      else unitPoint high :: joinHalves (.escaped low :: rest)
  | .escaped unit :: rest => unitPoint unit :: joinHalves rest
  | .plain point :: rest => point :: joinHalves rest

/-- The value of a string whose opening quote has been read. -/
def string? (text : Text) : Option (Text × Text) :=
  (pieces? text).map fun (pieces, rest) => (joinHalves pieces, rest)

/-- The key of a member, up to the colon after it. -/
def key? (text : Text) : Option (Text × Text) :=
  match skipBlank text with
  | .scalar '"' :: rest => do
      let (key, rest) ← string? rest
      match skipBlank rest with
      | .scalar ':' :: rest => some (key, rest)
      | _ => none
  | _ => none

end DiceOdds.Json
