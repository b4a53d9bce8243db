import AnnotatedSql.Identifier
import AnnotatedSql.Declaration
/-!
# Mistakes in a source

A mistake says what is wrong and which stretch of the source it concerns. The wording is kept
apart from the cause.
-/

namespace AnnotatedSql

/-- What is wrong at some place of a source. -/
inductive Fault
  /-- The tag in braces names no type. -/
  | unknownType (tag : String)
  /-- The declared key stands for no position. -/
  | positionOutOfRange (key : String)
  /-- The declared alias is no usable name. -/
  | unusableAlias (aliasName : String) (reason : Identifier.Fault)
  /-- A `$` placeholder refers past the declared parameters. -/
  | unknownPosition (digits : String)
  /-- A `?` placeholder stands where no parameter has an alias. -/
  | unboundQuestion
  /-- A `:name` placeholder refers to no alias. -/
  | unknownName (name : String)
  deriving DecidableEq, Repr

/-- A fault and the stretch of the source that it is about. -/
structure Mistake where
  fault : Fault
  span : Span
  deriving DecidableEq, Repr

namespace Fault

def message : Fault → String
  | unknownType tag => s!"invalid type '{tag}' in SQL comment"
  | positionOutOfRange key => s!"invalid parameter position '{key}'"
  | unusableAlias aliasName reason => s!"invalid parameter alias '{aliasName}': " ++ reason.message
  | unknownPosition digits => s!"unknown positional parameter: ${digits}"
  | unboundQuestion => "unknown positional parameter: $0"
  | unknownName name => s!"unknown named parameter: :{name}"

/-- A declaration that a help text shows as an example. -/
def sampleLine (key : String) : String :=
  "`-- @param \x7bString\x7d " ++ key ++ "`"

/-- What the reader can do about a fault. -/
def help : Fault → String
  | unknownType _ => "valid types are: " ++ ScalarType.expected
  | positionOutOfRange _ =>
    "positions start at " ++ Position.key 1 ++ " and go up to " ++ Position.key Position.highest
  | unusableAlias _ _ => "aliases become JavaScript bindings and argument names"
  | unknownPosition digits => "declare it in the header, e.g. " ++ sampleLine ("$" ++ digits)
  | unboundQuestion => "`?` binds to the first parameter declared with an alias"
  | unknownName name => "add an alias in the header, e.g. " ++ sampleLine (Position.key 1 ++ ":" ++ name)

/-- The note put at the marked stretch of the source. -/
def label : Fault → String
  | unknownType _ => "unknown type"
  | positionOutOfRange _ => "position out of range"
  | unusableAlias _ _ => "not a usable name"
  | unknownPosition _ | unboundQuestion => "not declared in the header"
  | unknownName _ => "no parameter has this alias"

end Fault
end AnnotatedSql
