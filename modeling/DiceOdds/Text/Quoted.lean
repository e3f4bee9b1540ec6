import DiceOdds.Text.Printable

/-!
# Quoted text

Error messages show the text that they complain about between quote marks, with everything that
would not print as itself spelled out.  The mark is an apostrophe unless the text holds an
apostrophe and no double quote.
-/

namespace DiceOdds.Text

def quoteMark (text : Text) : Char :=
  if text.contains (.scalar '\x27') && !text.contains (.scalar '"') then '"' else '\x27'

/-- An unprintable code point as `\xhh`, `\uhhhh` or `\Uhhhhhhhh`, the shortest that holds its
number. -/
def hexEscape (point : CodePoint) : Text :=
  if point.number ≤ 0xff then
    ofString "\\x" ++ hex 2 point.number
  else if point.number ≤ 0xffff then
    ofString "\\u" ++ hex 4 point.number
  else
    ofString "\\U" ++ hex 8 point.number

def escapeWithin (mark : Char) (point : CodePoint) : Text :=
  if point = .scalar mark ∨ point = .scalar '\\' then [.scalar '\\', point]
  else if point = .scalar '\n' then ofString "\\n"
  else if point = .scalar '\r' then ofString "\\r"
  else if point = .scalar '\t' then ofString "\\t"
  else if point.isPrintable then [point]
  else hexEscape point

def quoted (text : Text) : Text :=
  let mark := quoteMark text
  [.scalar mark] ++ text.flatMap (escapeWithin mark) ++ [.scalar mark]

end DiceOdds.Text
