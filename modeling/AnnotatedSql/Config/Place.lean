import AnnotatedSql.Text
/-!
# Where a value stands

A value that turns out wrong after the whole document was read is looked for again in the text,
line by line.
-/

namespace AnnotatedSql.Config

open Text (trim trimStart after? cut? byteLength)

/-- The value that a line gives to a key: all that follows the equals sign, without the blanks
around it. -/
def valueIn? (key line : List Char) : Option (List Char) := do
  let rest ← after? key (trimStart line)
  let rest ← after? ['='] (trimStart rest)
  return trim rest

/-- Where a text first stands in a line. -/
def firstPlace (line text : List Char) : Nat :=
  match cut? text line with
  | some (front, _) => byteLength front
  | none => 0

/-- The place of the value in the first of some lines that gives a value to a key, for lines that
start at an offset. It is the first place where the text of the value stands in that line. -/
def placeIn? (key : List Char) (offset : Nat) : List (List Char) → Option Span
  | [] => none
  | line :: lines =>
    match valueIn? key line with
    | some value => some ⟨offset + firstPlace line value, byteLength value⟩
    | none => placeIn? key (offset + byteLength line + 1) lines

/-- The place of the value of a key in a text. -/
def place? (key text : String) : Option Span :=
  placeIn? key.toList 0 (text.toList.splitOn '\n')

end AnnotatedSql.Config
