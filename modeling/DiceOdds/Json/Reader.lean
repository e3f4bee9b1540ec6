import DiceOdds.Json.Lexeme

/-!
# Reading JSON

`Json.read?` accepts strict JSON with two additions: `NaN`, `Infinity` and `-Infinity` are values,
and an escaped half of a surrogate pair may stand alone.  Every step into a value or on to the next
one passes a character of the text, so the length of the text bounds the recursion.
-/

namespace DiceOdds.Json

/-- A value written as a single word, number or string. -/
def atom? : Text → Option (Json × Text)
  | .scalar '"' :: rest => (string? rest).map fun (found, rest) => (string found, rest)
  | text => (constant? text).or (number? text)

mutual

/-- The value that starts a text, and the text after it. -/
def value? : Nat → Text → Option (Json × Text)
  | 0, _ => none
  | steps + 1, text =>
    match skipBlank text with
    | .scalar '[' :: rest =>
        match skipBlank rest with
        | .scalar ']' :: rest => some (array [], rest)
        | _ => do
            let (elements, rest) ← elements? steps rest
            some (array elements, rest)
    | .scalar '\x7b' :: rest =>
        match skipBlank rest with
        | .scalar '\x7d' :: rest => some (object [], rest)
        | _ => do
            let (members, rest) ← members? steps rest
            some (object members, rest)
    | text => atom? text

/-- The elements of an array that is not empty, up to its closing bracket. -/
def elements? : Nat → Text → Option (List Json × Text)
  | 0, _ => none
  | steps + 1, text => do
    let (element, rest) ← value? steps text
    match skipBlank rest with
    | .scalar ']' :: rest => some ([element], rest)
    | .scalar ',' :: rest => do
        let (others, rest) ← elements? steps rest
        some (element :: others, rest)
    | _ => none

/-- The members of an object that is not empty, up to its closing brace. -/
def members? : Nat → Text → Option (List (Text × Json) × Text)
  | 0, _ => none
  | steps + 1, text => do
    let (key, rest) ← key? text
    let (value, rest) ← value? steps rest
    match skipBlank rest with
    | .scalar '\x7d' :: rest => some ([(key, value)], rest)
    | .scalar ',' :: rest => do
        let (others, rest) ← members? steps rest
        some ((key, value) :: others, rest)
    | _ => none

end

/-- The value that a whole text holds, if the text is JSON. -/
def read? (text : Text) : Option Json := do
  let (value, rest) ← value? (2 * text.length + 1) text
  if skipBlank rest = [] then some value else none

end DiceOdds.Json
