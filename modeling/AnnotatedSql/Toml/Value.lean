import AnnotatedSql.Decimal.Binary64
import AnnotatedSql.Text
/-!
# TOML values

A document is a tree of tables. Every value and every key carries the stretch of the document
that it comes from, and every table remembers how it was written, because that decides whether it
may be extended later.
-/

namespace AnnotatedSql.Toml

/-- Something and where it stands in the document. -/
structure Located (α : Type) where
  value : α
  span : Span
  deriving Repr

/-- A name in a dotted path, with its quotes in the span if it has any. -/
abbrev Key := Located String

/-- A floating-point number as written. -/
inductive Float
  | finite (x : Binary64)
  | infinite (negative : Bool)
  | notANumber
  deriving Repr

/-- A value that holds no other values. -/
inductive Scalar
  | string (s : String)
  /-- An integer that fits in 64 bits with a sign. -/
  | integer (n : Int)
  | float (f : Float)
  /-- What is accepted for its looks and still is no number, or one that is out of range. -/
  | invalidNumber
  | boolean (b : Bool)
  /-- A date, a time or both. -/
  | dateTime
  deriving Repr

/-- How a table came about. -/
inductive Origin
  /-- It has a header of its own. -/
  | header
  /-- Only headers of tables below it name it. -/
  | implied
  /-- Only dotted keys name it. -/
  | dotted
  /-- It is written between braces. -/
  | inline
  deriving DecidableEq, Repr

/-- A value of a document. -/
inductive Value
  | scalar (s : Scalar)
  /-- An array, either written between brackets or made by headers of its elements. -/
  | array (ofHeaders : Bool) (elements : List (Located Value))
  | table (origin : Origin) (entries : List (Located String × Located Value))
  deriving Repr

/-- The entries of a table in the order in which they were written. -/
abbrev Table := List (Key × Located Value)

end AnnotatedSql.Toml
