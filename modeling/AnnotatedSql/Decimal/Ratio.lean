/-!
# Ratios

A ratio of natural numbers, kept as it comes: nothing is ever cancelled. The denominator of a
ratio that stands for a number is not zero.
-/

namespace AnnotatedSql

/-- Which of two equally near numbers is taken. -/
inductive Tie
  /-- The even one. -/
  | toEven
  /-- The larger one. -/
  | up
  deriving DecidableEq, Repr

/-- A quotient of two natural numbers. -/
structure Ratio where
  num : Nat
  den : Nat
  deriving DecidableEq, Repr

namespace Ratio

/-- The ratio times a power of a base. -/
def scale (r : Ratio) (base : Nat) (power : Int) : Ratio :=
  if 0 ≤ power then ⟨r.num * Nat.pow base power.toNat, r.den⟩
  else ⟨r.num, r.den * Nat.pow base (-power).toNat⟩

/-- Whether a ratio is smaller than a natural number. -/
def below (r : Ratio) (n : Nat) : Bool :=
  r.num < r.den * n

/-- The largest natural number that is not above a ratio. -/
def floor (r : Ratio) : Nat :=
  r.num / r.den

/-- How a ratio lies between its floor and the next number: whether it is nearer to the floor,
in the middle or nearer to the next number. -/
def half (r : Ratio) : Ordering :=
  compare (2 * (r.num % r.den)) r.den

/-- The natural number nearest to a ratio. -/
def nearest (tie : Tie) (r : Ratio) : Nat :=
  match r.half, tie with
  | .lt, _ => r.floor
  | .gt, _ => r.floor + 1
  | .eq, .toEven => if r.floor % 2 = 0 then r.floor else r.floor + 1
  | .eq, .up => r.floor + 1

end Ratio
end AnnotatedSql
