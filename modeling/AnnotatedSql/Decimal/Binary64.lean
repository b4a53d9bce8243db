import AnnotatedSql.Decimal.Ratio
/-!
# Binary floating-point numbers

The finite numbers of the binary interchange format with 64 bits. Arithmetic is exact followed by
one rounding to the nearest such number, where of two equally near ones the one with an even
mantissa is taken. What is too large has no result here.
-/

namespace AnnotatedSql

/-- The number `mantissa · 2 ^ exponent` with a sign. The mantissa has 53 bits, or fewer if the
exponent is the smallest one. -/
structure Binary64 where
  negative : Bool
  mantissa : Nat
  exponent : Int
  deriving DecidableEq, Repr

namespace Binary64

/-- The number of bits of a mantissa. -/
def precision : Nat := 53

/-- One more than the largest mantissa. -/
def mantissaLimit : Nat := Nat.pow 2 precision

/-- The exponent of zero and of the numbers nearest to it. -/
def minExponent : Int := -1074

/-- The exponent of the largest numbers. -/
def maxExponent : Int := 971

/-- Zero with a sign. -/
def zero (negative : Bool) : Binary64 :=
  ⟨negative, 0, minExponent⟩

def isZero (x : Binary64) : Bool :=
  x.mantissa == 0

/-- The ratio that a number stands for, without its sign. -/
def magnitude (x : Binary64) : Ratio :=
  (Ratio.mk x.mantissa 1).scale 2 x.exponent

/-- The smallest exponent for which the mantissa of a ratio has at most 53 bits before it is
rounded. -/
def exponentOf (r : Ratio) : Int :=
  let guess : Int := r.num.log2 - r.den.log2 - precision
  let exact := if (r.scale 2 (-guess)).below mantissaLimit then guess else guess + 1
  max exact minExponent

/-- The number nearest to a ratio with a sign. There is none if the ratio is too large. -/
def ofRatio? (negative : Bool) (r : Ratio) : Option Binary64 :=
  let exponent := exponentOf r
  let mantissa := (r.scale 2 (-exponent)).nearest .toEven
  let (mantissa, exponent) :=
    if mantissa = mantissaLimit then (mantissaLimit / 2, exponent + 1) else (mantissa, exponent)
  if mantissa = 0 then some (zero negative)
  else if exponent ≤ maxExponent then some ⟨negative, mantissa, exponent⟩
  else none

/-- The product of the magnitudes of two numbers, with the sign of the first. -/
def mul? (x y : Binary64) : Option Binary64 :=
  let a := x.magnitude
  let b := y.magnitude
  ofRatio? x.negative ⟨a.num * b.num, a.den * b.den⟩

/-- The quotient of the magnitudes of two numbers, with the sign of the first. The divisor is not
zero. -/
def div? (x y : Binary64) : Option Binary64 :=
  let a := x.magnitude
  let b := y.magnitude
  ofRatio? x.negative ⟨a.num * b.den, a.den * b.num⟩

/-- The number nearest to a power of ten, up to the largest one that is in range. -/
def powerOfTen (n : Nat) : Binary64 :=
  (ofRatio? false ⟨Nat.pow 10 (min n 308), 1⟩).getD (zero false)

/-- The number nearest to `digits · 10 ^ power`. Powers far out of range are decided without
writing them out. -/
def ofDecimal? (negative : Bool) (digits : Nat) (power : Int) : Option Binary64 :=
  let size : Int := digits.log2
  if digits = 0 ∨ size + 3 * power < -1100 then some (zero negative)
  else if 400 < power then none
  else ofRatio? negative ((Ratio.mk digits 1).scale 10 power)

end Binary64
end AnnotatedSql
