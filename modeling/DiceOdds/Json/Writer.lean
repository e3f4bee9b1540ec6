import DiceOdds.Json

/-!
# Writing JSON

The written form holds only the printable characters of ASCII: every other code point is escaped,
those past `0xFFFF` as two halves.  A space follows each comma and each colon.  A value with an
integer that has too many digits is not written at all.
-/

namespace DiceOdds.Json

def escapeUnit (unit : Nat) : Text :=
  .ofString "\\u" ++ Text.hex 4 unit

def escape (point : CodePoint) : Text :=
  if point = .scalar '"' then .ofString "\\\""
  else if point = .scalar '\\' then .ofString "\\\\"
  else if point = .scalar '\n' then .ofString "\\n"
  else if point = .scalar '\r' then .ofString "\\r"
  else if point = .scalar '\t' then .ofString "\\t"
  else if point = .scalar '\x08' then .ofString "\\b"
  else if point = .scalar '\x0c' then .ofString "\\f"
  else if 0x20 ≤ point.number ∧ point.number ≤ 0x7e then [point]
  else if point.number ≤ 0xffff then escapeUnit point.number
  else
    escapeUnit (0xd800 + (point.number - 0x10000) / 0x400) ++
      escapeUnit (0xdc00 + (point.number - 0x10000) % 0x400)

def writeString (text : Text) : Text :=
  [.scalar '"'] ++ text.flatMap escape ++ [.scalar '"']

mutual

def write : Json → Text
  | null => .ofString "null"
  | bool true => .ofString "true"
  | bool false => .ofString "false"
  | integer value => .ofInt value
  | decimal mantissa exponent => .ofInt mantissa ++ .ofString "e" ++ .ofInt exponent
  | nan => .ofString "NaN"
  | infinity false => .ofString "Infinity"
  | infinity true => .ofString "-Infinity"
  | string value => writeString value
  | array elements => .scalar '[' :: writeElements elements
  | object members => .scalar '\x7b' :: writeMembers members

/-- The elements of an array and its closing bracket. -/
def writeElements : List Json → Text
  | [] => [.scalar ']']
  | [element] => write element ++ [.scalar ']']
  | element :: rest => write element ++ (.ofString ", " ++ writeElements rest)

/-- The members of an object and its closing brace. -/
def writeMembers : List (Text × Json) → Text
  | [] => [.scalar '\x7d']
  | [(key, value)] => writeString key ++ (.ofString ": " ++ (write value ++ [.scalar '\x7d']))
  | (key, value) :: rest =>
      writeString key ++ (.ofString ": " ++ (write value ++ (.ofString ", " ++ writeMembers rest)))

end

mutual

/-- The integers in a value. -/
def numerals : Json → List Int
  | integer value => [value]
  | array elements => numeralsOfElements elements
  | object members => numeralsOfMembers members
  | _ => []

def numeralsOfElements : List Json → List Int
  | [] => []
  | element :: rest => numerals element ++ numeralsOfElements rest

def numeralsOfMembers : List (Text × Json) → List Int
  | [] => []
  | (_, value) :: rest => numerals value ++ numeralsOfMembers rest

end

/-- No integer in the value has too many digits. -/
def Fits (value : Json) : Prop :=
  ∀ number ∈ value.numerals, Text.Fits number

instance (value : Json) : Decidable value.Fits :=
  inferInstanceAs (Decidable (∀ number ∈ value.numerals, Text.Fits number))

/-- The written form of a value, unless it holds an integer that cannot be written. -/
def write? (value : Json) : Option Text :=
  if value.Fits then some (write value) else none

theorem write?_eq_some_iff {value : Json} {text : Text} :
    write? value = some text ↔ value.Fits ∧ text = write value := by
  rw [write?, Option.ite_none_right_eq_some, Option.some.injEq, eq_comm (a := text)]

theorem write?_eq_none_iff {value : Json} : write? value = none ↔ ¬ value.Fits := by
  simp [write?]

end DiceOdds.Json
