import GatewayStack.Number.Binary64

/-!
# Decimals

A decimal is read in two steps. First its digits are gathered into a
significand of at most 64 bits, next to a power of ten. Then the significand is
rounded to floating point and multiplied or divided by the power of ten, which
is rounded as well.

These roundings add up, so that the result may be a unit or two off the nearest
number. It is the nearest one when the significand and the power of ten are
both exact, as they are for at most 15 digits and a power within 22.
-/

namespace GatewayStack

/-- A decimal `significand · 10 ^ power`. -/
structure Decimal where
  significand : Nat
  power : Int
  deriving DecidableEq, Repr

namespace Decimal

/-- Appends digits to a number as long as it has room for them in 64 bits;
the digits from the first one that finds none are left over. -/
def gather (n : Nat) : List Nat → Nat × List Nat
  | [] => (n, [])
  | digit :: rest =>
    if n * 10 + digit < Nat.pow 2 64 then gather (n * 10 + digit) rest
    else (n, digit :: rest)

/-- The decimal with some digits before the point and some after it, times a
power of ten. A digit before the point that finds no room still moves the
point; one after it is dropped. -/
def ofDigits (whole fraction : List Nat) (power : Int) : Decimal :=
  let (n, unread) := gather 0 whole
  let (n, dropped) := gather n fraction
  ⟨n, power + unread.length - (fraction.length - dropped.length)⟩

/-- The greatest power of ten among the finite numbers. -/
def maxPower : Nat := 308

def tenTo? (n : Nat) : Option Binary64 :=
  Binary64.ofFraction false (Nat.pow 10 n) 1

/-- Multiplies a number by a power of ten. Only zero can be multiplied by one
that is out of range itself. -/
def scaleUp? (x : Binary64) (n : Nat) : Option Binary64 :=
  if n ≤ maxPower then (tenTo? n).bind x.times?
  else if x.significand = 0 then some x
  else none

/-- Divides a number below `2 ^ 64` by a power of ten, the greatest one first
when one division is not enough. After two of those nothing is left. -/
def scaleDown? (x : Binary64) (n : Nat) : Option Binary64 :=
  if n ≤ maxPower then (tenTo? n).bind x.over?
  else if n ≤ 2 * maxPower then do
    (← x.over? (← tenTo? maxPower)).over? (← tenTo? (n - maxPower))
  else some (Binary64.zero x.negative)

/-- The floating-point number of a decimal; nothing when it is out of range. -/
def toBinary64? (negative : Bool) (decimal : Decimal) : Option Binary64 := do
  let x ← Binary64.ofFraction negative decimal.significand 1
  if 0 ≤ decimal.power then scaleUp? x decimal.power.toNat
  else scaleDown? x (-decimal.power).toNat

end Decimal

end GatewayStack
