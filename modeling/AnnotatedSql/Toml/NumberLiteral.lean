import AnnotatedSql.Toml.Value
/-!
# Reading TOML numbers

Digits may be grouped by single underscores between two of them. The whole part of a number has
no leading zeros. Not everything that is accepted as an integer is a number: digits in a base
other than ten may be missing, and behind the first underscore of a decimal integer only what
stands beside an underscore is looked at.
-/

namespace AnnotatedSql.Toml

/-- A digit of a base up to sixteen. -/
def isDigitIn (base : Nat) (c : Char) : Bool :=
  (Text.hexValue? c).any (· < base)

/-- The digits of a number whose groups are separated by underscores. -/
def grouped? (isDigit : Char → Bool) (text : List Char) : Option (List Char) :=
  let groups := text.splitOn '_'
  if groups.all fun g => !g.isEmpty && g.all isDigit then some groups.flatten else none

/-- Whether the whole part of a number starts with a zero that it should not have. -/
def hasLeadingZero (text : List Char) : Bool :=
  text.head? == some '0' && text != ['0']

/-- The sign of a number, if it has one, and what follows. -/
def signed : List Char → Bool × List Char
  | '+' :: rest => (false, rest)
  | '-' :: rest => (true, rest)
  | text => (false, text)

/-! ## Integers -/

/-- The number that digits of a base write. -/
def numberIn (base : Nat) (digits : List Char) : Nat :=
  digits.foldl (fun n c => base * n + (Text.hexValue? c).getD 0) 0

/-- Whether an integer fits in 64 bits with a sign. -/
def fits (n : Int) : Bool :=
  -(Nat.pow 2 63 : Nat) ≤ n && n < (Nat.pow 2 63 : Nat)

/-- The value of an accepted integer without its underscores. -/
def integerIn (base : Nat) (negative : Bool) (digits : List Char) : Scalar :=
  let size : Int := numberIn base digits
  let n := if negative then -size else size
  if digits ≠ [] ∧ digits.all (isDigitIn base) ∧ fits n then .integer n else .invalidNumber

/-- The digits of an integer in a base other than ten, behind the letter of the base. -/
def radixDigits? (base : Nat) (text : List Char) : Option (List Char) :=
  if text = [] then some [] else grouped? (isDigitIn base) text

/-- Whether every underscore between groups stands between two hexadecimal digits. -/
def wellDivided (groups : List (List Char)) : Bool :=
  groups.dropLast.all (fun g => g.getLast?.any (isDigitIn 16)) &&
    groups.tail.all (fun g => g.head?.any (isDigitIn 16))

/-- What is accepted as a decimal integer, without its underscores. With a point or the letter of a
power it would be a floating-point number, and with a space a date. -/
def decimalDigits? (text : List Char) : Option (List Char) :=
  let groups := text.splitOn '_'
  let first := groups.headD []
  if first = [] ∨ !first.all Char.isDigit ∨ hasLeadingZero text ∨ !wellDivided groups
      ∨ text.any (fun c => c == '.' || c == 'e' || c == 'E' || c == ' ')
  then none else some groups.flatten

/-- An integer. Only in base ten it may have a sign. -/
def integer? (text : List Char) : Option Scalar :=
  match text with
  | '0' :: 'x' :: rest => (radixDigits? 16 rest).map (integerIn 16 false)
  | '0' :: 'o' :: rest => (radixDigits? 8 rest).map (integerIn 8 false)
  | '0' :: 'b' :: rest => (radixDigits? 2 rest).map (integerIn 2 false)
  | text =>
    let (negative, digits) := signed text
    (decimalDigits? digits).map (integerIn 10 negative)

/-! ## Floating-point numbers -/

/-- The digits in front of the point. -/
def whole? (text : List Char) : Option (List Char) :=
  if hasLeadingZero text then none else grouped? Char.isDigit text

/-- The power of ten behind the letter of a floating-point number. -/
def power? (text : List Char) : Option Int :=
  let (negative, digits) := signed text
  (grouped? Char.isDigit digits).map fun ds =>
    if negative then -(Text.decimal ds : Int) else Text.decimal ds

/-- A text cut at the first character of a kind, which is dropped. -/
def cutAt (isMark : Char → Bool) (text : List Char) : List Char × Option (List Char) :=
  (text.takeWhile (!isMark ·), (text.dropWhile (!isMark ·)).tail?)

/-- A floating-point number that is written with digits. -/
def decimal? (negative : Bool) (text : List Char) : Option Scalar := do
  let (mantissa, power) := cutAt (fun c => c == 'e' || c == 'E') text
  let (whole, fraction) := cutAt (· == '.') mantissa
  if power.isNone ∧ fraction.isNone then none
  else
    let whole ← whole? whole
    let fraction ← match fraction with
      | none => some []
      | some f => grouped? Char.isDigit f
    let power ← match power with
      | none => some 0
      | some p => power? p
    let digits := Text.decimal (whole ++ fraction)
    return match Binary64.ofDecimal? negative digits (power - fraction.length) with
      | some x => .float (.finite x)
      | none => .invalidNumber

/-- A floating-point number. -/
def float? (text : List Char) : Option Scalar :=
  let (negative, rest) := signed text
  if rest = ['i', 'n', 'f'] then some (.float (.infinite negative))
  else if rest = ['n', 'a', 'n'] then some (.float .notANumber)
  else decimal? negative rest

/-- What is accepted as a number. -/
def number? (text : List Char) : Option Scalar :=
  (integer? text).or (float? text)

end AnnotatedSql.Toml
