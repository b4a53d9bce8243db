import AnnotatedSql.Toml.DateTime
import AnnotatedSql.Toml.NumberLiteral
import AnnotatedSql.Toml.StringLiteral
import AnnotatedSql.Toml.Table
/-!
# Reading TOML

A reader takes something from the front of a text and gives the rest. Places are told by what is
left of the text: the size of the whole document less the bytes that are left is an offset.
-/

namespace AnnotatedSql.Toml

/-- The stretch of a document of some size that lies between two of its rests. -/
def between (size : Nat) (start rest : List Char) : Span :=
  ⟨size - Text.byteLength start, Text.byteLength start - Text.byteLength rest⟩

/-! ## Blanks and comments -/

def skipSpace (text : List Char) : List Char :=
  text.dropWhile isSpace

/-- Skips a comment, if one comes next, up to the end of its line. -/
def skipComment? : List Char → Option (List Char)
  | '#' :: rest =>
    let body := rest.takeWhile fun c => c != '\n' && c != '\r'
    if body.any isControl then none else some (rest.drop body.length)
  | text => some text

/-- Skips the rest of a line that may hold a comment, with the line break if there is one. -/
def endOfLine? (text : List Char) : Option (List Char) := do
  match ← skipComment? (skipSpace text) with
  | [] => return []
  | rest => afterNewline? rest

/-- Skips spaces, comments and line breaks. -/
def skipLines? (text : List Char) : Option (List Char) :=
  match skipComment? (skipSpace text) with
  | none => none
  | some rest =>
    match afterNewline? rest with
    | some next => if _ : next.length < text.length then skipLines? next else none
    | none => some rest
termination_by text.length

/-! ## Keys -/

def isBareKey (c : Char) : Bool :=
  c.isAlphanum || c == '_' || c == '-'

/-- One name of a path. -/
def key? (size : Nat) (text : List Char) : Option (Key × List Char) :=
  match quotedKey? text with
  | some (name, rest) => some (⟨name, between size text rest⟩, rest)
  | none =>
    let name := text.takeWhile isBareKey
    if name = [] then none
    else
      let rest := text.drop name.length
      some (⟨String.ofList name, between size text rest⟩, rest)

/-- The names of a path of any length: those in front of the last one, and the last one. -/
def names? (size : Nat) (text : List Char) : Option ((List Key × Key) × List Char) := do
  let (first, rest) ← key? size text
  match skipSpace rest with
  | '.' :: next =>
    let next := skipSpace next
    if _ : next.length < text.length then
      let ((path, last), rest) ← names? size next
      return ((first :: path, last), rest)
    else none
  | _ => return (([], first), rest)
termination_by text.length

/-- The most names in a path, and the deepest nesting of a value. -/
def maxDepth : Nat := 80

/-- A dotted path: the names in front of the last one, and the last one. -/
def path? (size : Nat) (text : List Char) : Option ((List Key × Key) × List Char) := do
  let ((path, last), rest) ← names? size text
  if path.length < maxDepth then return ((path, last), rest) else none

/-! ## Values -/

/-- Characters that end a word. Quotes only matter at the start of one. -/
def endsWord (c : Char) : Bool :=
  isSpace c || c == '\n' || c == '\r' || c == '#' || c == ',' || c == '=' || c == '[' || c == ']'
    || c == '\x7b' || c == '\x7d'

/-- Characters that a word may start with behind the spaces after another word. -/
def startsWord (c : Char) : Bool :=
  !endsWord c && c != '"' && c != '\'' && c != '.'

/-- The words that a text starts with, with the spaces between them. Together they are one value,
such as a date and a time. -/
def words : List Char → List Char
  | [] => []
  | c :: rest =>
    if !endsWord c then c :: words rest
    else if isSpace c && (rest.dropWhile isSpace).head?.any startsWord then c :: words rest
    else []

/-- The value that is written without quotes. -/
def scalar? (text : List Char) : Option Scalar :=
  if text = "true".toList then some (.boolean true)
  else if text = "false".toList then some (.boolean false)
  else if DateTime.isValid text then some .dateTime
  else number? text

/-- A function that reads something from the front of a text. -/
abbrev Reader (α : Type) := List Char → Option (α × List Char)

/-- Things with commas between them up to a closing bracket. A comma may follow the last one. -/
def items? {α : Type} (item : Reader α) (close : Char) (text : List Char) :
    Option (List α × List Char) := do
  match ← skipLines? text with
  | [] => none
  | c :: rest =>
    if c = close then return ([], rest)
    else
      let (a, rest) ← item (c :: rest)
      match ← skipLines? rest with
      | [] => none
      | c :: rest =>
        if c = close then return ([a], rest)
        else if c = ',' then
          if _ : rest.length < text.length then
            let (more, rest) ← items? item close rest
            return (a :: more, rest)
          else none
        else none
termination_by text.length

/-- A dotted key with the value behind the equals sign. What may stand on either side of the sign
is skipped by `skip?`. -/
def keyValue? (size : Nat) (skip? : List Char → Option (List Char))
    (value : Reader (Located Value)) : Reader Table.Entry := fun text => do
  let ((path, key), rest) ← path? size text
  match ← skip? rest with
  | '=' :: rest =>
    let (v, rest) ← value (← skip? rest)
    return (⟨path, key, v⟩, rest)
  | _ => none

/-- A value that starts right away, where `nested` reads the values inside it, if there may be
any. -/
def valueHere? (size : Nat) (nested : Option (Reader (Located Value))) : Reader Value :=
  fun text =>
    match text with
    | [] => none
    | c :: rest =>
      if c = '"' ∨ c = '\'' then
        (string? text).map fun (s, rest) => (.scalar (.string s), rest)
      else if c = '[' then do
        let (vs, rest) ← items? (← nested) ']' rest
        return (.array false vs, rest)
      else if c = '\x7b' then do
        let (es, rest) ← items? (keyValue? size skipLines? (← nested)) '\x7d' rest
        return (.table .inline (← Table.insertAll [] es), rest)
      else do
        let ws := words text
        return (.scalar (← scalar? ws), text.drop ws.length)

/-- A value, nested at most `depth` deep. -/
def value? (size : Nat) : (depth : Nat) → Reader (Located Value)
  | 0 => fun text => do
    let (v, rest) ← valueHere? size none text
    return (⟨v, between size text rest⟩, rest)
  | depth + 1 => fun text => do
    let (v, rest) ← valueHere? size (some (value? size depth)) text
    return (⟨v, between size text rest⟩, rest)

/-! ## Documents -/

/-- What one line of a document says. -/
inductive Line
  | header (element : Bool) (path : List Key) (key : Key) (span : Span)
  | entry (e : Table.Entry)

/-- A header with its brackets. -/
def header? (size : Nat) (text : List Char) : Option (Line × List Char) := do
  let (element, marks) := if text.take 2 = ['[', '['] then (true, [']', ']']) else (false, [']'])
  let ((path, key), rest) ← path? size (skipSpace (text.drop marks.length))
  let rest ← Text.after? marks (skipSpace rest)
  return (.header element path key (between size text rest), rest)

/-- A dotted key with its value. Only spaces stand around the equals sign. -/
def entry? (size : Nat) (text : List Char) : Option (Line × List Char) := do
  let (e, rest) ← keyValue? size (some ∘ skipSpace) (value? size maxDepth) text
  return (.entry e, rest)

/-- The lines of a document that are neither blank nor mere comments. -/
def lines? (size : Nat) (text : List Char) : Option (List Line) := do
  match ← skipLines? text with
  | [] => return []
  | c :: rest =>
    let (line, rest) ← if c = '[' then header? size (c :: rest) else entry? size (c :: rest)
    let rest ← endOfLine? rest
    if _ : rest.length < text.length then
      let more ← lines? size rest
      return line :: more
    else none
termination_by text.length

/-- The entries in front of the first header, and the sections. -/
def sections : List Line → List Table.Entry × List Table.Section
  | [] => ([], [])
  | .entry e :: rest =>
    let (entries, below) := sections rest
    (e :: entries, below)
  | .header element path key span :: rest =>
    let (entries, below) := sections rest
    ([], ⟨element, path, key, span, entries⟩ :: below)

/-- The mark that a document may start with. -/
def byteOrderMark : Char := '\ufeff'

/-- The table that a document writes, if it is one. -/
def parse? (document : String) : Option Table := do
  let text := document.toList
  let size := Text.byteLength text
  let body := if text.head? = some byteOrderMark then text.tail else text
  let (entries, below) := sections (← lines? size body)
  Table.ofDocument entries below

end AnnotatedSql.Toml
