import AnnotatedSql.Decimal.Shortest
import AnnotatedSql.Json.Value
/-!
# Printing JSON

Every element and every member stands on a line of its own, four columns deeper than what holds
it. In strings only the quote, the backslash and control characters are escaped.
-/

namespace AnnotatedSql.Json

/-- A digit of the hexadecimal form of a small number. -/
def hexDigit (n : Nat) : Char :=
  Nat.digitChar (n % 16)

/-- How a character is written in a string. -/
def escaped (c : Char) : List Char :=
  match c with
  | '"' => ['\\', '"']
  | '\\' => ['\\', '\\']
  | '\x08' => ['\\', 'b']
  | '\x0c' => ['\\', 'f']
  | '\n' => ['\\', 'n']
  | '\r' => ['\\', 'r']
  | '\t' => ['\\', 't']
  | c =>
    if c.toNat < 0x20 then ['\\', 'u', '0', '0', hexDigit (c.toNat / 16), hexDigit c.toNat]
    else [c]

/-- A string in quotes. -/
def quoted (s : List Char) : List Char :=
  '"' :: s.flatMap escaped ++ ['"']

/-- A decimal as a JSON number: in full between `1e-5` and `1e16`, else with a power of ten. -/
def decimalText (d : Decimal) : List Char :=
  if -5 < d.point ∧ d.point ≤ 16 then d.positional else d.scientific

/-- The style of numbers: of two equally near decimals the one with an even last digit. -/
def numberStyle : DecimalStyle :=
  ⟨.toEven, decimalText⟩

/-- How a number is written: an integer in full, any other with the fewest digits. -/
def Number.text : Number → List Char
  | .integer n => (toString n).toList
  | .double x => (x.text numberStyle).toList

/-- A new line at a depth. -/
def newLine (depth : Nat) : List Char :=
  '\n' :: List.replicate (4 * depth) ' '

mutual

/-- A value whose first line stands at a depth. -/
def Value.print (depth : Nat) : Value → List Char
  | .null => ['n', 'u', 'l', 'l']
  | .bool true => ['t', 'r', 'u', 'e']
  | .bool false => ['f', 'a', 'l', 's', 'e']
  | .number n => n.text
  | .string s => quoted s.toList
  | .array [] => ['[', ']']
  | .array (v :: vs) =>
    '[' :: newLine (depth + 1) ++ v.print (depth + 1) ++ printElements (depth + 1) vs
      ++ newLine depth ++ [']']
  | .object [] => ['{', '}']
  | .object ((k, v) :: ms) =>
    '{' :: newLine (depth + 1) ++ quoted k.toList ++ [':', ' '] ++ v.print (depth + 1)
      ++ printMembers (depth + 1) ms ++ newLine depth ++ ['}']

/-- The elements behind the first, each with the comma in front of it. -/
def printElements (depth : Nat) : List Value → List Char
  | [] => []
  | v :: vs => ',' :: newLine depth ++ v.print depth ++ printElements depth vs

/-- The members behind the first, each with the comma in front of it. -/
def printMembers (depth : Nat) : List (String × Value) → List Char
  | [] => []
  | (k, v) :: ms =>
    ',' :: newLine depth ++ quoted k.toList ++ [':', ' '] ++ v.print depth
      ++ printMembers depth ms

end

/-- The text of a value. -/
def Value.render (v : Value) : String :=
  String.ofList (v.print 0)

end AnnotatedSql.Json
