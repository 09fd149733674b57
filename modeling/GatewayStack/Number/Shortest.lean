import GatewayStack.Number.Binary64

/-!
# Shortest decimal text

The text of a floating-point number is the shortest decimal that reads back as
that number, and of several the nearest. Every real strictly between the
midpoints to the two neighbours reads back; the midpoints themselves do so
exactly when the significand is even.

The layout is a second matter: between `10 ^ -5` and `10 ^ 16` the number is
written positionally with at least one decimal, outside that range with an
exponent that always has a sign.
-/

namespace GatewayStack.Binary64

/-- The reals that read back as a positive number, all four over one
denominator, together with whether the two ends belong to them. -/
structure Basin where
  low : Nat
  value : Nat
  high : Nat
  den : Nat
  closed : Bool

/-- The basin of a number with a positive significand. Below a power of two the
next number is only half as far away. -/
def basin (x : Binary64) : Basin :=
  let unit := Nat.pow 2 (x.exponent - 2).toNat
  let below := if x.significand = Nat.pow 2 52 ∧ minExponent < x.exponent then 1
    else 2
  { low := (4 * x.significand - below) * unit
    value := 4 * x.significand * unit
    high := (4 * x.significand + 2) * unit
    den := Nat.pow 2 (2 - x.exponent).toNat
    closed := x.significand % 2 = 0 }

/-- Whether `digits / scale` lies in the basin, given with its numerators
already multiplied by that scale. -/
def Basin.holds (b : Basin) (point : Nat) : Bool :=
  if b.closed then b.low ≤ point && point ≤ b.high else b.low < point &&
    point < b.high

/-- The basin in units of a power of ten. -/
def Basin.inUnits (b : Basin) (power : Int) : Basin :=
  let up := Nat.pow 10 (-power).toNat
  { b with
    low := b.low * up
    value := b.value * up
    high := b.high * up
    den := b.den * Nat.pow 10 power.toNat }

/-- The best multiple of a power of ten in the basin: the nearer of the two
around the value, the even one on a tie. -/
def Basin.bestMultiple? (b : Basin) (power : Int) : Option Nat :=
  let s := b.inUnits power
  let floor := s.value / s.den
  let lower := s.holds (floor * s.den)
  let upper := s.holds ((floor + 1) * s.den)
  if lower && upper then some (roundDiv s.value s.den)
  else if lower then some floor
  else if upper then some (floor + 1)
  else none

/-- Position of the decimal point: the least `e` with `value < 10 ^ e`. -/
def Basin.pointPosition (b : Basin) : Int :=
  let log : Int := (b.value.log2 : Int) - (b.den.log2 : Int)
  let guess := (log * 1233).fdiv 4096 - 1
  let below (e : Int) : Bool :=
    b.value * Nat.pow 10 (-e).toNat < b.den * Nat.pow 10 e.toNat
  ([guess, guess + 1, guess + 2, guess + 3].find? below).getD (guess + 4)

/-- Decimal digits and the position of the point: the value is
`0.digits · 10 ^ point`. -/
structure Digits where
  digits : List Char
  point : Int
  deriving DecidableEq

def significantDigits (n : Nat) : List Char :=
  ((Nat.toDigits 10 n).reverse.dropWhile (· = '0')).reverse

/-- The first of the finer and finer grids that has a point in the basin. -/
def Basin.search (b : Basin) (point : Int) : Nat → Nat → Digits
  | _, 0 => ⟨[], point⟩
  | count, fuel + 1 =>
    match b.bestMultiple? (point - count) with
    | some n => ⟨significantDigits n,
      point + ((Nat.toDigits 10 n).length - count : Int)⟩
    | none => Basin.search b point (count + 1) fuel

/-- Shortest digits of a number with a positive significand; seventeen always
suffice. -/
def shortest (x : Binary64) : Digits :=
  let b := x.basin
  b.search b.pointPosition 1 17

/-- Positional or scientific text of some digits. -/
def Digits.text (d : Digits) : String :=
  let count : Int := d.digits.length
  if 0 < d.point ∧ d.point ≤ 16 then
    let padded := d.digits ++ List.replicate (d.point - count).toNat '0'
    let fraction := padded.drop d.point.toNat
    String.ofList (padded.take d.point.toNat) ++ "."
      ++ (if fraction.isEmpty then "0" else String.ofList fraction)
  else if -5 < d.point ∧ d.point ≤ 0 then
    "0." ++ String.ofList (List.replicate (-d.point).toNat '0' ++ d.digits)
  else
    let mantissa :=
      match d.digits with
      | first :: second :: rest =>
        String.ofList (first :: '.' :: second :: rest)
      | short => String.ofList short
    mantissa ++ (if d.point < 1 then "e" else "e+") ++ toString (d.point - 1)

def text (x : Binary64) : String :=
  (if x.negative then "-" else "") ++ (if x.significand = 0 then "0.0"
    else x.shortest.text)

end GatewayStack.Binary64
