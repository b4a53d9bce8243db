/-!
# Types a parameter can be declared with

The types form a closed set; each is written in a source by its tag.
-/

namespace AnnotatedSql

/-- The type of one declared parameter. -/
inductive ScalarType
  | int
  | bigInt
  | float
  | boolean
  | string
  | dateTime
  | json
  | bytes
  | decimal
  deriving DecidableEq, Repr

namespace ScalarType

/-- Every type, in the order in which messages list them. -/
def all : List ScalarType :=
  [int, bigInt, float, boolean, string, dateTime, json, bytes, decimal]

/-- The tag that stands for a type in a source. -/
def tag : ScalarType → String
  | int => "Int"
  | bigInt => "BigInt"
  | float => "Float"
  | boolean => "Boolean"
  | string => "String"
  | dateTime => "DateTime"
  | json => "Json"
  | bytes => "Bytes"
  | decimal => "Decimal"

/-- The type with a given tag. Tags are case-sensitive. -/
def ofTag? (t : String) : Option ScalarType :=
  all.find? fun type => type.tag == t

theorem ofTag?_tag (type : ScalarType) : ofTag? type.tag = some type := by
  cases type <;> decide

/-- The tags of all types, as messages list them. -/
def expected : String :=
  ", ".intercalate (all.map tag)

/-- The message about a tag that names no type. -/
def unknownMessage (t : String) : String :=
  s!"unknown parameter type '{t}'"

/-- How the declarations of a client library write a type. -/
def clientName : ScalarType → String
  | int => "number"
  | bigInt => "number | bigint"
  | float => "number"
  | boolean => "boolean"
  | string => "string"
  | dateTime => "Date"
  | json => "runtime.InputJsonObject"
  | bytes => "Uint8Array"
  | decimal => "number | runtime.Decimal"

end ScalarType

/-- The declared type of an argument: `unknown` where nothing is declared, and with `null`
added where the argument is optional. -/
def clientType (type : Option ScalarType) (optional : Bool) : String :=
  let base := match type with
    | some t => t.clientName
    | none => "unknown"
  if optional then base ++ " | null" else base

end AnnotatedSql
