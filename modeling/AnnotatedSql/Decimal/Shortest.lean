import AnnotatedSql.Decimal.Binary64
/-!
# Shortest decimal form

The digits of a number are the fewest that read back as the same number; of the candidates with
that many digits the nearest is taken. Which of two equally near ones that is, the style decides.
-/

namespace AnnotatedSql

/-- A positive decimal number: `0.d₁d₂…dₙ · 10 ^ point`, with neither the first nor the last
digit zero. -/
structure Decimal where
  digits : List Char
  point : Int
  deriving DecidableEq, Repr

namespace Shortest

/-- The smallest power of ten above a ratio that is not zero. -/
def pointOf (r : Ratio) : Int :=
  let guess : Int := (Nat.toDigits 10 r.num).length - (Nat.toDigits 10 r.den).length
  if (r.scale 10 (-guess)).below 1 then guess else guess + 1

/-- The ends of the interval of ratios that round to a number, as multiples of a quarter of its
last mantissa bit. Below a power of two the numbers lie twice as dense. -/
def interval (x : Binary64) : Ratio × Ratio :=
  let low :=
    if 2 * x.mantissa = Binary64.mantissaLimit ∧ Binary64.minExponent < x.exponent
    then 4 * x.mantissa - 1 else 4 * x.mantissa - 2
  ((Ratio.mk low 1).scale 2 (x.exponent - 2),
    (Ratio.mk (4 * x.mantissa + 2) 1).scale 2 (x.exponent - 2))

/-- Whether `n · 10 ^ power` reads back as a number: it lies in the interval, whose ends belong
to it if the mantissa is even. -/
def readsBack (x : Binary64) (n : Nat) (power : Int) : Bool :=
  let (low, high) := interval x
  let low := low.scale 10 (-power)
  let high := high.scale 10 (-power)
  if x.mantissa % 2 = 0 then low.num ≤ n * low.den && n * high.den ≤ high.num
  else low.num < n * low.den && n * high.den < high.num

/-- The decimal with a given last place that is nearest to a number among those that read back. -/
def onGrid? (tie : Tie) (x : Binary64) (power : Int) : Option Nat :=
  let r := x.magnitude.scale 10 (-power)
  let low := r.floor
  match readsBack x low power, readsBack x (low + 1) power with
  | true, true => some (r.nearest tie)
  | true, false => some low
  | false, true => some (low + 1)
  | false, false => none

/-- Drops the zeros that a run of digits ends with. -/
def withoutZeros (digits : List Char) : List Char :=
  (digits.reverse.dropWhile (· == '0')).reverse

/-- The decimal `n · 10 ^ power`. -/
def ofGrid (n : Nat) (power : Int) : Decimal :=
  let digits := Nat.toDigits 10 n
  ⟨withoutZeros digits, digits.length + power⟩

/-- The shortest decimal form of a number that is not zero. Seventeen digits are always
enough. -/
def decimal (tie : Tie) (x : Binary64) : Decimal :=
  let point := pointOf x.magnitude
  let grids := (List.range' 1 17).map fun n => point - (n : Nat)
  let found := grids.findSome? fun power => (onGrid? tie x power).map fun n => ofGrid n power
  found.getD ⟨['0'], 0⟩

end Shortest

namespace Decimal

def zeros (n : Nat) : List Char :=
  List.replicate n '0'

/-- A decimal written out in full, always with a point. -/
def positional (d : Decimal) : List Char :=
  let n := d.digits.length
  if d.point ≤ 0 then ['0', '.'] ++ zeros (-d.point).toNat ++ d.digits
  else if d.point.toNat < n then
    d.digits.take d.point.toNat ++ ['.'] ++ d.digits.drop d.point.toNat
  else d.digits ++ zeros (d.point.toNat - n) ++ ['.', '0']

/-- A decimal with one digit in front of the point and a signed power of ten behind. -/
def scientific (d : Decimal) : List Char :=
  let power := d.point - 1
  let mantissa := match d.digits with
    | [] => []
    | [c] => [c]
    | c :: rest => c :: '.' :: rest
  mantissa ++ ['e', if power < 0 then '-' else '+'] ++ Nat.toDigits 10 power.natAbs

end Decimal

/-- How numbers are written. -/
structure DecimalStyle where
  /-- Which of two equally near shortest decimals is taken. -/
  tie : Tie
  write : Decimal → List Char

/-- A number with its sign, as a style writes its shortest decimal. -/
def Binary64.text (style : DecimalStyle) (x : Binary64) : String :=
  let body := if x.isZero then ['0', '.', '0'] else style.write (Shortest.decimal style.tie x)
  String.ofList (if x.negative then '-' :: body else body)

end AnnotatedSql
