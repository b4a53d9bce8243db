import AnnotatedSql.Text
/-!
# Names a generated procedure or binding can take

`fault?` gives the leftmost offence of a name against the shape `[A-Za-z_][A-Za-z0-9_]*`; a
name of the right shape is refused only when it is reserved.
-/

namespace AnnotatedSql.Identifier

/-- Words that cannot name anything in a generated module: the reserved words of the language,
then the words that a module or a strict function reserves. -/
def reservedWords : List String :=
  ["break", "case", "catch", "class", "const", "continue", "debugger", "default", "delete", "do",
   "else", "enum", "export", "extends", "false", "finally", "for", "function", "if", "import",
   "in", "instanceof", "new", "null", "return", "super", "switch", "this", "throw", "true", "try",
   "typeof", "var", "void", "while", "with", "yield",
   "let", "static", "implements", "interface", "package", "private", "protected", "public",
   "await", "as", "async", "from", "get", "of", "set"]

/-- Whether a name is one of the reserved words. -/
def isReserved (name : String) : Bool :=
  reservedWords.contains name

/-- Why a name cannot be used. -/
inductive Fault
  | empty
  | dollar
  | badStart
  | badCharacter
  | reserved
  deriving DecidableEq, Repr

/-- The wording of a fault. -/
def Fault.message : Fault → String
  | .empty => "name cannot be empty"
  | .dollar => "name cannot contain '$'"
  | .badStart => "name must start with a letter or underscore"
  | .badCharacter => "name must contain only letters, numbers, and underscores"
  | .reserved => "name is a JavaScript reserved word"

/-- The leftmost character behind the first that does not belong in a name. -/
def laterFault? : List Char → Option Fault
  | [] => none
  | c :: cs =>
    if c = '$' then some .dollar
    else if Text.isWord c then laterFault? cs
    else some .badCharacter

/-- The first thing wrong with the shape of a name. -/
def shapeFault? : List Char → Option Fault
  | [] => some .empty
  | c :: cs =>
    if c = '$' then some .dollar
    else if c.isAlpha || c == '_' then laterFault? cs
    else some .badStart

/-- The first thing wrong with a name, if anything is. -/
def fault? (name : String) : Option Fault :=
  match shapeFault? name.toList with
  | some fault => some fault
  | none => if isReserved name then some .reserved else none

/-- Whether a name can be used. -/
def isValid (name : String) : Bool :=
  (fault? name).isNone

end AnnotatedSql.Identifier
