import AnnotatedSql.Text
/-!
# TOML dates and times

A date, a time, both, or both with an offset. Only whether a text is one of them matters, so
nothing is kept of it. Seconds may be left out, and a leap second is admitted anywhere.
-/

namespace AnnotatedSql.Toml.DateTime

/-- The number that the first `count` characters write, if all are digits. -/
def digits? (count : Nat) (text : List Char) : Option (Nat × List Char) :=
  let ds := text.take count
  if ds.length = count ∧ ds.all Char.isDigit then some (Text.decimal ds, text.drop count) else none

/-- The rest behind one given character. -/
def after? (c : Char) (text : List Char) : Option (List Char) :=
  Text.after? [c] text

def isLeap (year : Nat) : Bool :=
  (year % 4 == 0 && year % 100 != 0) || year % 400 == 0

def daysIn (year month : Nat) : Nat :=
  if month = 2 then if isLeap year then 29 else 28
  else if month = 4 ∨ month = 6 ∨ month = 9 ∨ month = 11 then 30
  else 31

/-- The rest behind a date. -/
def afterDate? (text : List Char) : Option (List Char) := do
  let (year, text) ← digits? 4 text
  let (month, text) ← digits? 2 (← after? '-' text)
  let (day, text) ← digits? 2 (← after? '-' text)
  if 1 ≤ month ∧ month ≤ 12 ∧ 1 ≤ day ∧ day ≤ daysIn year month then return text else none

/-- The rest behind the digits behind the point of the seconds. -/
def afterFraction? (text : List Char) : Option (List Char) :=
  match text with
  | '.' :: c :: rest => if c.isDigit then some (rest.dropWhile Char.isDigit) else none
  | '.' :: [] => none
  | text => some text

/-- The rest behind a time. -/
def afterTime? (text : List Char) : Option (List Char) := do
  let (hour, text) ← digits? 2 text
  let (minute, text) ← digits? 2 (← after? ':' text)
  if 23 < hour ∨ 59 < minute then none
  else
    match text with
    | ':' :: text =>
      let (second, text) ← digits? 2 text
      if 60 < second then none else afterFraction? text
    | text => return text

/-- Whether a text is an offset from universal time, or nothing. -/
def isOffset (text : List Char) : Bool :=
  match text with
  | [] => true
  | [c] => c == 'Z' || c == 'z'
  | c :: rest =>
    (c == '+' || c == '-') && (do
      let (hour, text) ← digits? 2 rest
      let (minute, text) ← digits? 2 (← after? ':' text)
      return decide (hour ≤ 23) && decide (minute ≤ 59) && text.isEmpty).getD false

/-- Whether a text is a date, a time, or both in this order with an offset behind them or
without. -/
def isValid (text : List Char) : Bool :=
  match afterDate? text with
  | none => afterTime? text == some []
  | some [] => true
  | some (c :: rest) =>
    (c == 'T' || c == 't' || c == ' ') && ((afterTime? rest).map isOffset).getD false

end AnnotatedSql.Toml.DateTime
