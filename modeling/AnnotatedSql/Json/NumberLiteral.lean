import AnnotatedSql.Json.Reader
import AnnotatedSql.Json.Value
import AnnotatedSql.Text
/-!
# Reading JSON numbers

The digits of a number are taken into a significand as long as it fits in 64 bits; those left
over only count for the power of ten. A number that is not an integer of 64 bits becomes a
floating-point number: the significand is rounded, and so is its product with the power of ten.
-/

namespace AnnotatedSql.Json

/-- The largest significand. -/
def maxSignificand : Nat := Nat.pow 2 64 - 1

/-- Appends digits to a significand as long as it fits. Gives it and the number of digits from
the first that does not fit. -/
def accumulate (significand : Nat) : List Char → Nat × Nat
  | [] => (significand, 0)
  | c :: cs =>
    let next := 10 * significand + Text.decimal [c]
    if next ≤ maxSignificand then accumulate next cs else (significand, cs.length + 1)

/-- Multiplies or divides a number by a power of ten, in steps of at most `10 ^ 308`. -/
def shiftDecimal? (x : Binary64) (power : Int) : Option Binary64 :=
  if 0 ≤ power then
    if power ≤ 308 then x.mul? (.powerOfTen power.toNat)
    else if x.isZero then some x
    else none
  else if -308 ≤ power then x.div? (.powerOfTen (-power).toNat)
  else if x.isZero then some x
  else (x.div? (.powerOfTen 308)).bind (shiftDecimal? · (power + 308))
termination_by power.natAbs

/-- The number that `significand · 10 ^ power` is rounded to. -/
def double? (negative : Bool) (significand : Nat) (power : Int) : Option Binary64 :=
  (Binary64.ofRatio? negative ⟨significand, 1⟩).bind (shiftDecimal? · power)

namespace Number

/-- The integer with a sign and a magnitude. Negative zero is not an integer, nor is what does
not fit. -/
def integer? (negative : Bool) (magnitude : Nat) : Option Number :=
  if !negative then some (.integer magnitude)
  else if 0 < magnitude ∧ magnitude ≤ Nat.pow 2 63 then some (.integer (-magnitude))
  else none

/-- The number with given digits in front of the point. -/
def ofWhole? (negative : Bool) (whole : List Char) : Option Number :=
  let (significand, dropped) := accumulate 0 whole
  let exact := if dropped = 0 then integer? negative significand else none
  exact.or ((double? negative significand dropped).map .double)

/-- The number with given digits in front of the point and behind it and a power of ten. -/
def ofParts? (negative : Bool) (whole fraction : List Char) (power : Int) : Option Number :=
  let (significand, dropped) := accumulate 0 whole
  let (significand, unused) := accumulate significand fraction
  let shift : Int := (dropped : Int) + unused - fraction.length + power
  (double? negative significand shift).map .double

end Number

/-- The digits in front of the point; only zero itself starts with a zero. -/
def wholeDigits : Reader (List Char) := fun text => do
  let ds ← digits text
  if ds.value.head? = some '0' ∧ ds.value ≠ ['0'] then .error .malformed else return ds

/-- The sign, if there is one, and the digits of a power of ten. -/
def signedDigits : Reader Int := fun text =>
  match text with
  | '+' :: rest => (digits rest).map fun ds => (ds.map fun n => (Text.decimal n : Int)).after '+'
  | '-' :: rest => (digits rest).map fun ds => (ds.map fun n => -(Text.decimal n : Int)).after '-'
  | text => (digits text).map fun ds => ds.map fun n => (Text.decimal n : Int)

/-- A number without its sign. -/
def unsigned (negative : Bool) : Reader Number := fun text => do
  let whole ← wholeDigits text
  let both ← whole.also (· == '.') digits
  let all ← both.also (fun c => c == 'e' || c == 'E') signedDigits
  let number := match all.value with
    | ((whole, none), none) => Number.ofWhole? negative whole
    | ((whole, fraction), power) =>
      Number.ofParts? negative whole (fraction.getD []) (power.getD 0)
  match number with
  | none => .error .malformed
  | some n => return all.map fun _ => n

/-- A number with its sign. -/
def numberLiteral : Reader Number := fun text =>
  match text with
  | '-' :: rest => (unsigned true rest).map (·.after '-')
  | text => unsigned false text

end AnnotatedSql.Json
