/-!
# Finite binary floating point

A finite number of the 64-bit binary format, kept as sign, significand and
power of two rather than as a machine word: the value is `± m · 2 ^ q` with
`m < 2 ^ 53` and `q ≥ -1074`, and nothing here ever leaves exact arithmetic on
naturals.

`ofFraction` rounds: the nearest such number, the even significand on a tie,
and nothing when the nearest one would be infinite. Products and quotients are
exact fractions rounded once.
-/

namespace GatewayStack

/-- A finite binary floating-point number, `± significand · 2 ^ exponent`. -/
structure Binary64 where
  negative : Bool
  significand : Nat
  exponent : Int
  deriving DecidableEq, Repr

namespace Binary64

/-- The least power of two, and so the distance between the smallest numbers. -/
def minExponent : Int := -1074

/-- The greatest power of two of a finite number. -/
def maxExponent : Int := 971

def zero (negative : Bool) : Binary64 := ⟨negative, 0, minExponent⟩

/-- The quotient rounded to the nearest natural, a tie to the even one. -/
def roundDiv (num den : Nat) : Nat :=
  let quotient := num / den
  let twice := 2 * (num % den)
  if twice < den then quotient
  else if den < twice then quotient + 1
  else quotient + quotient % 2

/-- The fraction `num / den` divided by a power of two. -/
def shiftDown (num den : Nat) (power : Int) : Nat × Nat :=
  (num * Nat.pow 2 (-power).toNat, den * Nat.pow 2 power.toNat)

/-- The power of two at which a positive fraction has 53 significant bits, or
the least one when it is too small for that. -/
def exponentOf (num den : Nat) : Int :=
  let guess : Int := (num.log2 : Int) - (den.log2 : Int) - 53
  let scaled := shiftDown num den guess
  let exact := if Nat.pow 2 53 * scaled.2 ≤ scaled.1 then guess + 1 else guess
  max exact minExponent

/-- The number nearest to the fraction `num / den`; nothing when that is out
of range. -/
def ofFraction (negative : Bool) (num den : Nat) : Option Binary64 :=
  if num = 0 then some (zero negative)
  else
    let power := exponentOf num den
    let scaled := shiftDown num den power
    let rounded := roundDiv scaled.1 scaled.2
    let result : Binary64 :=
      if rounded = Nat.pow 2 53 then ⟨negative, Nat.pow 2 52, power + 1⟩
      else ⟨negative, rounded, power⟩
    if maxExponent < result.exponent then none else some result

/-- The number nearest to an integer. -/
def ofInt (z : Int) : Option Binary64 := ofFraction (decide (z < 0)) z.natAbs 1

/-- The magnitude of a number as a fraction. -/
def magnitude (x : Binary64) : Nat × Nat :=
  (x.significand * Nat.pow 2 x.exponent.toNat, Nat.pow 2 (-x.exponent).toNat)

/-- The number nearest to a product; nothing when that is out of range. -/
def times? (x y : Binary64) : Option Binary64 :=
  ofFraction (x.negative != y.negative) (x.magnitude.1 * y.magnitude.1)
    (x.magnitude.2 * y.magnitude.2)

/-- The number nearest to a quotient; nothing when that is out of range. -/
def over? (x y : Binary64) : Option Binary64 :=
  ofFraction (x.negative != y.negative) (x.magnitude.1 * y.magnitude.2)
    (x.magnitude.2 * y.magnitude.1)

end Binary64

end GatewayStack
