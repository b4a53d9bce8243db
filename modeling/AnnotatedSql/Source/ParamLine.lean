import AnnotatedSql.Text
/-!
# Parameter lines

A parameter line is a comment such as `-- @param {Int} $2:limit? Rows to return`. `read?` takes
a line apart into pieces that leave nothing out: the blanks it skips are pieces too, so the
pieces put together (`ParamLine.text`) are the line.
-/

namespace AnnotatedSql

open Text (after? indent isWord trimStart)

/-- The pieces of a parameter line, in the order in which they stand in it. -/
structure ParamLine where
  /-- Blanks between the dashes and `@param`. -/
  beforeWord : List Char
  /-- Blanks between `@param` and the opening brace. -/
  beforeBrace : List Char
  /-- What stands between the braces. -/
  tag : List Char
  /-- Blanks between the closing brace and the dollar sign. -/
  beforeKey : List Char
  /-- The digits behind the dollar sign. -/
  digits : List Char
  /-- The word behind the colon, if there is one. -/
  aliasName : Option (List Char)
  /-- Whether a question mark follows. -/
  optional : Bool
  /-- Blanks in front of the description. -/
  beforeNote : List Char
  /-- The rest of the line. -/
  note : List Char
  deriving DecidableEq, Repr

namespace ParamLine

/-- The word that marks a parameter line. -/
def keyword : List Char := ['@', 'p', 'a', 'r', 'a', 'm']

/-- The key of the declared position, as written. -/
def key (line : ParamLine) : List Char :=
  '$' :: line.digits

/-! ## What stands in front of each piece -/

/-- What stands in front of the tag, the brace included. -/
def beforeTag (line : ParamLine) : List Char :=
  ['-', '-'] ++ line.beforeWord ++ keyword ++ line.beforeBrace ++ ['{']

/-- What stands in front of the key. -/
def beforeDollar (line : ParamLine) : List Char :=
  line.beforeTag ++ line.tag ++ ['}'] ++ line.beforeKey

/-- What stands in front of the alias, the colon included, in a line that has one. -/
def beforeAlias (line : ParamLine) : List Char :=
  line.beforeDollar ++ line.key ++ [':']

/-- The line that the pieces make up. -/
def text (line : ParamLine) : List Char :=
  line.beforeDollar ++ line.key
    ++ (match line.aliasName with | some word => ':' :: word | none => [])
    ++ (if line.optional then ['?'] else [])
    ++ line.beforeNote ++ line.note

/-! ## Reading a line -/

/-- A colon and the longest word behind it. A colon with no word behind it is left alone. -/
def takeAlias : List Char → Option (List Char) × List Char
  | ':' :: rest =>
    match rest.takeWhile isWord with
    | [] => (none, ':' :: rest)
    | word => (some word, rest.dropWhile isWord)
  | rest => (none, rest)

/-- A question mark that stands right here. -/
def takeMark : List Char → Bool × List Char
  | '?' :: rest => (true, rest)
  | rest => (false, rest)

/-- Takes a trimmed line apart, if it is a parameter line. -/
def read? (line : List Char) : Option ParamLine := do
  let s₁ ← after? ['-', '-'] line
  let s₂ ← after? keyword (trimStart s₁)
  let s₃ ← after? ['{'] (trimStart s₂)
  let tag := s₃.takeWhile isWord
  let s₄ ← after? ['}'] (s₃.dropWhile isWord)
  let s₅ ← after? ['$'] (trimStart s₄)
  let digits := s₅.takeWhile Char.isDigit
  let (aliasName, s₆) := takeAlias (s₅.dropWhile Char.isDigit)
  let (optional, s₇) := takeMark s₆
  if tag = [] ∨ digits = [] then none
  else some {
    beforeWord := indent s₁
    beforeBrace := indent s₂
    tag
    beforeKey := indent s₄
    digits
    aliasName
    optional
    beforeNote := indent s₇
    note := trimStart s₇ }

end ParamLine
end AnnotatedSql
