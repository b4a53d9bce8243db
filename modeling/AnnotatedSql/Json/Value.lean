import AnnotatedSql.Decimal.Binary64
import AnnotatedSql.Entries
/-!
# JSON values

The members of an object keep their order.
-/

namespace AnnotatedSql.Json

/-- A number: an integer that fits in 64 bits with or without a sign, or a floating-point
number. -/
inductive Number
  | integer (n : Int)
  | double (x : Binary64)
  deriving DecidableEq, Repr

/-- A JSON value. -/
inductive Value
  | null
  | bool (b : Bool)
  | number (n : Number)
  | string (s : String)
  | array (elements : List Value)
  | object (members : List (String × Value))
  deriving Repr, Inhabited

/-- The members of a value, if it is an object. -/
def Value.members? : Value → Option (Entries Value)
  | .object members => some members
  | _ => none

end AnnotatedSql.Json
