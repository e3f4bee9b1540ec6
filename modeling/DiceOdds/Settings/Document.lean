import DiceOdds.Settings

/-!
# Settings documents

A settings document holds one entry a line: a key, a colon and a value.  Blank lines and everything
from a `#` at the start of a line or after a blank are passed over.  A value is a text in double
quotes, or a word that may stand for a number, a truth value or nothing.
-/

namespace DiceOdds.Settings

def isBlank (point : CodePoint) : Bool :=
  point == .scalar ' ' || point == .scalar '\t' || point == .scalar '\r'

/-- The text without the blanks at its two ends. -/
def trim (text : Text) : Text :=
  ((text.dropWhile isBlank).reverse.dropWhile isBlank).reverse

def lines : Text → List Text
  | [] => [[]]
  | point :: rest =>
    if point = .scalar '\n' then [] :: lines rest
    else
      match lines rest with
      | [] => [[point]]
      | line :: others => (point :: line) :: others

/-- The text before a comment. -/
def beforeComment (afterBlank : Bool) : Text → Text
  | [] => []
  | point :: rest =>
    if afterBlank && point == .scalar '#' then []
    else point :: beforeComment (isBlank point) rest

/-! ### Words -/

def nothingWords : List Text :=
  ["", "~", "null", "Null", "NULL"].map Text.ofString

def trueWords : List Text :=
  ["true", "True", "TRUE", "yes", "Yes", "YES", "on", "On", "ON"].map Text.ofString

def falseWords : List Text :=
  ["false", "False", "FALSE", "no", "No", "NO", "off", "Off", "OFF"].map Text.ofString

/-- The number that a word spells.  It starts with a digit, underscores after the first digit are
passed over, and a leading zero makes it octal. -/
def natural? (word : Text) : Option Nat := do
  let _ ← (← word.head?).digit?
  let digits ← (word.filter (· != .scalar '_')).mapM CodePoint.digit?
  match digits with
  | [] => none
  | [digit] => some digit
  | 0 :: octal => if octal.all (· < 8) then some (Text.ofDigits 8 octal) else none
  | digits => some (Text.ofDigits 10 digits)

def integer? : Text → Option Int
  | .scalar '-' :: word => (natural? word).map fun value => -value
  | .scalar '+' :: word => (natural? word).map Int.ofNat
  | word => (natural? word).map Int.ofNat

/-- The digits of a word in which underscores are passed over. -/
def digits? (word : Text) : Option (List Nat) :=
  (word.filter (· != .scalar '_')).mapM CodePoint.digit?

/-- The power of ten after the digits of a decimal, which has a sign. -/
def power? : Text → Option Int
  | [] => some 0
  | .scalar mark :: .scalar sign :: word => do
    if (mark ≠ 'e' ∧ mark ≠ 'E') ∨ word = [] then none
    else
      let size := Text.ofDigits 10 (← word.mapM CodePoint.digit?)
      match sign with
      | '-' => some (-size)
      | '+' => some size
      | _ => none
  | _ => none

/-- The mantissa and the power of ten that a word spells after its sign, if it has one.  There is a
point in it and a digit before the point, or directly after the point where there is no sign. -/
def size? (signed : Bool) (word : Text) : Option (Nat × Int) := do
  let (whole, rest) := word.span (· != .scalar '.')
  let (places, power) := (← rest.tail?).span fun point =>
    point.digit?.isSome || point == .scalar '_'
  let _ ← (← (if whole = [] ∧ signed = false then places else whole).head?).digit?
  let places ← digits? places
  some (Text.ofDigits 10 ((← digits? whole) ++ places), (← power? power) - places.length)

def decimal? : Text → Option (Int × Int)
  | .scalar '-' :: word => (size? true word).map fun (size, power) => (-size, power)
  | .scalar '+' :: word => (size? true word).map fun (size, power) => (size, power)
  | word => (size? false word).map fun (size, power) => (size, power)

def Value.ofWord (word : Text) : Value :=
  if nothingWords.contains word then .nothing
  else if trueWords.contains word then .flag true
  else if falseWords.contains word then .flag false
  else
    match integer? word, decimal? word with
    | some value, _ => .integer value
    | none, some (mantissa, exponent) => .decimal mantissa exponent
    | none, none => .text word

/-! ### Entries -/

def valueOf (written : Text) : Value :=
  match trim written with
  | .scalar '"' :: rest => .text (rest.takeWhile (· != .scalar '"'))
  | plain => .ofWord (trim (beforeComment true plain))

/-- The text before the first colon that a blank or the end of the line follows, and the text after
it. -/
def splitKey? : Text → Option (Text × Text)
  | [] => none
  | point :: rest =>
    if point = .scalar ':' ∧ rest.head?.all isBlank then some ([], rest)
    else (splitKey? rest).map fun (key, written) => (point :: key, written)

def ofLine? (line : Text) : Option (Text × Value) :=
  if (trim line).head? = some (.scalar '#') then none
  else (splitKey? (trim line)).map fun (key, written) => (trim key, valueOf written)

def ofDocument (document : Text) : Settings :=
  ((lines document).filterMap ofLine?).foldl (fun settings (key, value) => settings.set key value)
    .empty

end DiceOdds.Settings
