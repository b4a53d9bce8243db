import AnnotatedSql.Toml.DateTime
import AnnotatedSql.Toml.Value
/-!
# Valid values

What looks like a number is read without asking for its value, and so is a table that stands for
a date. A value is valid if whoever asks for everything in it finds numbers and dates there.
-/

namespace AnnotatedSql.Toml

/-- The one key that a date has when it is taken for a table. -/
def dateKey : String := "$__toml_private_datetime"

/-- What is given for the date in a table that stands for one, that is, in which no key comes in
front of that of a date. -/
def date? (entries : Table) : Option Value :=
  match entries.find? fun (key, _) => key.value == dateKey with
  | none => none
  | some (_, v) =>
    if entries.all fun (key, _) => Text.precedes dateKey.toList key.value.toList then some v.value
    else none

/-- Whether a value is a string with a date. -/
def isDate : Value → Bool
  | .scalar (.string s) => DateTime.isValid s.toList
  | _ => false

mutual

/-- Whether a value is valid. Of a table that stands for a date only the date is looked at. -/
def Value.isValid : Value → Bool
  | .scalar .invalidNumber => false
  | .scalar _ => true
  | .array _ elements => areValid elements
  | .table _ entries =>
    match date? entries with
    | some date => isDate date
    | none => haveValidValues entries

/-- Whether all elements of an array are valid. -/
def areValid : List (Located Value) → Bool
  | [] => true
  | ⟨v, _⟩ :: rest => v.isValid && areValid rest

/-- Whether all values of a table are valid. -/
def haveValidValues : List (Located String × Located Value) → Bool
  | [] => true
  | (_, ⟨v, _⟩) :: rest => v.isValid && haveValidValues rest

end

/-- Whether a document is valid. It does not stand for a date. -/
def Table.isValid (document : Table) : Bool :=
  haveValidValues document

end AnnotatedSql.Toml
