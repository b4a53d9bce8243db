import AnnotatedSql.ScalarType
import AnnotatedSql.Text
/-!
# Declared parameters

A header declares parameters by position. A list of parameters holds one declaration for each
position, in the order in which the positions were first declared; declaring a position again
replaces what stood there (`Parameters.declare`).
-/

namespace AnnotatedSql

namespace Position

/-- The highest position a parameter can take. -/
def highest : Nat := 65535

/-- A position as it is written in SQL and used as an argument name. -/
def key (n : Nat) : String :=
  "$" ++ n.repr

/-- Whether a position can be declared. -/
def inRange (n : Nat) : Bool :=
  1 ≤ n && n ≤ highest

/-- The number a run of decimal digits writes, if it is a position that can be declared. -/
def ofDigits? (digits : List Char) : Option Nat :=
  let n := Text.decimal digits
  if inRange n then some n else none

/-- The position a key stands for: `$`, then decimal digits that a plus sign may precede. -/
def ofKey? (text : String) : Option Nat :=
  match text.toList with
  | '$' :: '+' :: digits => read digits
  | '$' :: digits => read digits
  | _ => none
where
  /-- One or more decimal digits, read as a position. -/
  read (digits : List Char) : Option Nat :=
    if digits != [] && digits.all Char.isDigit then ofDigits? digits else none

/-- The message about a text that is no key. -/
def invalidMessage (text : String) : String :=
  s!"invalid positional key '{text}'"

end Position

/-- One declared parameter. -/
structure Declaration where
  position : Nat
  type : ScalarType
  /-- The name that `:name` refers to and that callers see. -/
  aliasName : Option String
  optional : Bool
  /-- Free text for the generated documentation. -/
  description : Option String
  deriving DecidableEq, Repr

/-- The name a declaration offers to callers: its alias, or else its position's key. -/
def Declaration.exposed (d : Declaration) : String :=
  d.aliasName.getD (Position.key d.position)

/-- Declarations with distinct positions, in the order of first declaration. -/
abbrev Parameters := List Declaration

namespace Parameters

/-- Adds a declaration: in place of the one for its position, or else at the end. -/
def declare (parameters : Parameters) (d : Declaration) : Parameters :=
  if parameters.any (·.position == d.position) then
    parameters.map fun old => if old.position = d.position then d else old
  else
    parameters ++ [d]

/-- The parameters that a sequence of declarations leaves. -/
def ofDeclarations (declarations : List Declaration) : Parameters :=
  declarations.foldl declare []

/-- The declaration of a position. -/
def at? (parameters : Parameters) (n : Nat) : Option Declaration :=
  parameters.find? (·.position == n)

/-- The highest declared position, or zero where nothing is declared. -/
def maxPosition (parameters : Parameters) : Nat :=
  parameters.foldl (fun top d => max top d.position) 0

end Parameters

/-- The numbers that occur more than once in a list, each listed when its second occurrence is
met. -/
def repeatedNumbers (numbers : List Nat) : List Nat :=
  go [] [] numbers
where
  /-- Goes on from the numbers already `seen` and those already `listed`. -/
  go (seen listed : List Nat) : List Nat → List Nat
    | [] => listed
    | n :: rest =>
      if seen.contains n then
        go seen (if listed.contains n then listed else listed ++ [n]) rest
      else
        go (n :: seen) listed rest

end AnnotatedSql
