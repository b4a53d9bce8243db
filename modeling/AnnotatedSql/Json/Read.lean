import AnnotatedSql.Json.NumberLiteral
import AnnotatedSql.Json.StringLiteral
/-!
# Reading JSON

Nothing but the grammar is accepted. Numbers have to be in range, and values nest at most 127
deep.
-/

namespace AnnotatedSql.Json

/-- A fixed word. -/
def word (letters : List Char) (value : Value) : Reader Value := fun text =>
  match Text.after? letters text with
  | some rest =>
    if h : rest.length < text.length then .ok ⟨value, rest, h⟩ else .error .malformed
  | none => .error (if text.isPrefixOf letters then .endOfText else .malformed)

/-- Things between brackets with commas between them: the rest behind the opening bracket, or,
if some have been read, behind the last of them. -/
def items {α : Type} (item : Reader α) (close : Char) (first : Bool) (text : List Char) :
    Except Fault (Front (List α) text) :=
  match h : skipBlanks text with
  | [] => .error .endOfText
  | c :: rest =>
    have hc := length_rest_lt_of_skipBlanks h
    if c = close then .ok ⟨[], rest, hc⟩
    else
      let found := if first then behindBlanks item text
        else if c = ',' then (behindBlanks item rest).map (Front.widen hc)
        else .error .malformed
      match found with
      | .error fault => .error fault
      | .ok a =>
        have := a.shorter
        (items item close false a.rest).map fun more => (a.later more).map (a.value :: ·)
termination_by text.length

/-- A key, a colon and a value. -/
def member (value : Reader Value) : Reader (String × Value) := fun text => do
  let key ← stringLiteral text
  let colon ← behindBlanks (char ':') key.rest
  let v ← value colon.rest
  return (key.later (colon.later v)).map (key.value, ·)

/-- The object with given members: of several with one key the last counts, at the place of the
first. -/
def ofMembers (members : List (String × Value)) : Value :=
  .object (members.foldl (fun ms (k, v) => Entries.put ms k v) [])

/-- A value that starts right away, where `nested` reads the values inside it, if there may be
any. -/
def valueHere (nested : Option (Reader Value)) : Reader Value := fun text =>
  match text with
  | [] => .error .endOfText
  | c :: rest =>
    if c = '"' then (stringLiteral (c :: rest)).map (·.map .string)
    else if c = '-' ∨ c.isDigit then (numberLiteral (c :: rest)).map (·.map .number)
    else if c = 'n' then word ['n', 'u', 'l', 'l'] .null (c :: rest)
    else if c = 't' then word ['t', 'r', 'u', 'e'] (.bool true) (c :: rest)
    else if c = 'f' then word ['f', 'a', 'l', 's', 'e'] (.bool false) (c :: rest)
    else
      match nested with
      | none => .error .malformed
      | some value =>
        if c = '[' then (items value ']' true rest).map fun vs => (vs.map .array).after c
        else if c = '{' then
          (items (member value) '}' true rest).map fun ms => (ms.map ofMembers).after c
        else .error .malformed

/-- A value behind any blanks, nested at most `depth` deep. -/
def value : (depth : Nat) → Reader Value
  | 0 => behindBlanks (valueHere none)
  | depth + 1 => behindBlanks (valueHere (some (value depth)))

/-- The deepest nesting that is read. -/
def maxDepth : Nat := 127

/-- The value that a whole text writes. -/
def Value.parse (text : String) : Except Fault Value :=
  match value maxDepth text.toList with
  | .error fault => .error fault
  | .ok v => if skipBlanks v.rest = [] then .ok v.value else .error .malformed

end AnnotatedSql.Json
