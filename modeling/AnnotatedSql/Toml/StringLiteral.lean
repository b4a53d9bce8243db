import AnnotatedSql.Text
/-!
# Reading TOML strings

Basic strings stand between quotes and know escapes; literal ones stand between apostrophes and
are taken as they are. Both may be written over several lines between three marks.
-/

namespace AnnotatedSql.Toml

/-- Characters that may not stand in a document except as an escape. -/
def isControl (c : Char) : Bool :=
  (c.toNat < 0x20 && c != '\t') || c.toNat == 0x7F

def isSpace (c : Char) : Bool :=
  c == ' ' || c == '\t'

/-- The rest behind a line break, if the text starts with one. -/
def afterNewline? : List Char → Option (List Char)
  | '\n' :: rest => some rest
  | '\r' :: '\n' :: rest => some rest
  | _ => none

/-- The number that exactly `count` hexadecimal digits write. -/
def hexNumber? (count : Nat) (text : List Char) : Option (Nat × List Char) := do
  let digits := text.take count
  let values ← digits.mapM Text.hexValue?
  if values.length = count then
    return (values.foldl (fun n d => 16 * n + d) 0, text.drop count)
  else none

/-- The character with a code that is given in hexadecimal digits. -/
def codedChar? (count : Nat) (text : List Char) : Option (Char × List Char) := do
  let (n, rest) ← hexNumber? count text
  if h : n.isValidChar then return (Char.ofNatAux n h, rest) else none

/-- What follows a backslash. -/
def escape? : List Char → Option (Char × List Char)
  | 'b' :: rest => some ('\x08', rest)
  | 't' :: rest => some ('\t', rest)
  | 'n' :: rest => some ('\n', rest)
  | 'f' :: rest => some ('\x0c', rest)
  | 'r' :: rest => some ('\r', rest)
  | 'e' :: rest => some ('\x1b', rest)
  | '"' :: rest => some ('"', rest)
  | '\\' :: rest => some ('\\', rest)
  | 'x' :: rest => codedChar? 2 rest
  | 'u' :: rest => codedChar? 4 rest
  | 'U' :: rest => codedChar? 8 rest
  | _ => none

/-- Drops the spaces and line breaks that a text starts with. -/
def skipSpaceAndLines (text : List Char) : List Char :=
  match text with
  | '\r' :: '\n' :: rest => skipSpaceAndLines rest
  | c :: rest => if isSpace c || c == '\n' then skipSpaceAndLines rest else c :: rest
  | [] => []

/-- The rest behind a line break that a backslash joins with the next line: spaces, the break,
and all spaces and breaks that follow. -/
def afterJoin? (text : List Char) : Option (List Char) :=
  (afterNewline? (text.dropWhile isSpace)).map skipSpaceAndLines

/-- Up to two marks may stand right in front of the three that close a string. Gives those and
the rest behind the closing ones, for a text behind the first three marks in a row. -/
def closing (mark : Char) (text : List Char) : List Char × List Char :=
  let extra := (text.take 2).takeWhile (· == mark)
  (extra, text.drop extra.length)

/-- A basic string on one line, behind its quote. -/
def basicString? (text : List Char) : Option (List Char × List Char) :=
  match text with
  | [] => none
  | '"' :: rest => some ([], rest)
  | '\\' :: rest => do
    let (c, after) ← escape? rest
    if _ : after.length ≤ rest.length then
      let (s, after) ← basicString? after
      return (c :: s, after)
    else none
  | c :: rest =>
    if isControl c then none
    else do
      let (s, after) ← basicString? rest
      return (c :: s, after)
termination_by text.length

/-- A literal string on one line, behind its apostrophe. -/
def literalString? : List Char → Option (List Char × List Char)
  | [] => none
  | '\'' :: rest => some ([], rest)
  | c :: rest =>
    if isControl c then none
    else do
      let (s, after) ← literalString? rest
      return (c :: s, after)

/-- A basic string over several lines, behind its three quotes and the line break that may
follow them. -/
def basicLines? (text : List Char) : Option (List Char × List Char) :=
  match text with
  | [] => none
  | '"' :: '"' :: '"' :: rest => some (closing '"' rest)
  | '\\' :: rest =>
    match afterJoin? rest with
    | some after => if _ : after.length ≤ rest.length then basicLines? after else none
    | none => do
      let (c, after) ← escape? rest
      if _ : after.length ≤ rest.length then
        let (s, after) ← basicLines? after
        return (c :: s, after)
      else none
  | '\r' :: '\n' :: rest => do
    let (s, after) ← basicLines? rest
    return ('\r' :: '\n' :: s, after)
  | c :: rest =>
    if isControl c && c != '\n' then none
    else do
      let (s, after) ← basicLines? rest
      return (c :: s, after)
termination_by text.length

/-- A literal string over several lines, behind its three apostrophes and the line break that
may follow them. -/
def literalLines? : List Char → Option (List Char × List Char)
  | [] => none
  | '\'' :: '\'' :: '\'' :: rest => some (closing '\'' rest)
  | '\r' :: '\n' :: rest => do
    let (s, after) ← literalLines? rest
    return ('\r' :: '\n' :: s, after)
  | c :: rest =>
    if isControl c && c != '\n' then none
    else do
      let (s, after) ← literalLines? rest
      return (c :: s, after)

/-- Drops the line break that may follow the three marks that open a string. -/
def firstLine (text : List Char) : List Char :=
  (afterNewline? text).getD text

/-- A string of any kind with its marks. -/
def string? (text : List Char) : Option (String × List Char) :=
  let read := match text with
    | '"' :: '"' :: '"' :: rest => basicLines? (firstLine rest)
    | '\'' :: '\'' :: '\'' :: rest => literalLines? (firstLine rest)
    | '"' :: rest => basicString? rest
    | '\'' :: rest => literalString? rest
    | _ => none
  read.map fun (s, rest) => (String.ofList s, rest)

/-- A string on one line with its marks, as keys may be written. -/
def quotedKey? (text : List Char) : Option (String × List Char) :=
  let read := match text with
    | '"' :: rest => basicString? rest
    | '\'' :: rest => literalString? rest
    | _ => none
  read.map fun (s, rest) => (String.ofList s, rest)

end AnnotatedSql.Toml
