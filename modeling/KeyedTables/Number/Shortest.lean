import KeyedTables.Number.Binary
import KeyedTables.Number.Digits

/-!
This module contains the texts of floating point numbers. Both are computed in exact integer
arithmetic: the shortest decimal that reads back as the same number, written without an exponent,
and the decimal with three places that is nearest to the number.
-/

namespace KeyedTables

namespace Number

/--
The quotient rounded to the nearest integer, halves to the even neighbour.
-/
def roundHalfEven (num den : Nat) : Nat :=
  let q := num / den
  let r := num % den
  if 2 * r < den then q
  else if den < 2 * r then q + 1
  else if q % 2 = 0 then q else q + 1

/--
The interval of the reals that round to a number, on a common denominator: the number is
`value / scale`, and what lies between `low` and `high` reads back as it. The ends belong to it
exactly if `closed`.
-/
structure RoundingInterval where
  low : Nat
  value : Nat
  high : Nat
  scale : Nat
  closed : Bool

/--
The interval around `mantissa * 2 ^ exponent`. The lower half is narrower at a power of two, unless
the exponent is the smallest one.
-/
def RoundingInterval.around (f : BinaryFormat) (mantissa : Nat) (exponent : Int) :
    RoundingInterval :=
  let atPower := decide (mantissa = 2 ^ f.fractionBits) && decide (f.minExponent < exponent)
  let low := 4 * mantissa - (if atPower then 1 else 2)
  let value := 4 * mantissa
  let high := 4 * mantissa + 2
  let closed := decide (mantissa % 2 = 0)
  if 2 ≤ exponent then
    let unit := 2 ^ (exponent - 2).toNat
    ⟨low * unit, value * unit, high * unit, 1, closed⟩
  else
    ⟨low, value, high, 2 ^ (2 - exponent).toNat, closed⟩

namespace RoundingInterval

/--
`digits * up / down` reads back as the number.
-/
def contains (i : RoundingInterval) (digits up down : Nat) : Bool :=
  let point := digits * up * i.scale
  let low := i.low * down
  let high := i.high * down
  (decide (low < point) && decide (point < high))
    || (i.closed && (decide (point = low) || decide (point = high)))

/--
The point of the grid `up / down` that reads back as the number, the nearer one of two.
-/
def onGrid? (i : RoundingInterval) (up down : Nat) : Option Nat :=
  let below := i.value * down / (i.scale * up)
  match i.contains below up down, i.contains (below + 1) up down with
  | true, true =>
    let point := 2 * i.value * down
    let middle := (2 * below + 1) * up * i.scale
    if point < middle then some below else some (below + 1)
  | true, false => some below
  | false, true => some (below + 1)
  | false, false => none

/--
The number of digits before the point of the number, zero or negative for small fractions.
-/
def pointPlace (i : RoundingInterval) : Int :=
  if i.scale ≤ i.value then
    digitCount (i.value / i.scale)
  else
    -- One less than the reciprocal's next integer has as many digits as the number has places up
    -- to its first digit.
    1 - (digitCount ((i.scale - 1) / i.value) : Int)

/--
The two factors of the grid of `10 ^ place`.
-/
def gridOf (place : Int) : Nat × Nat :=
  if 0 ≤ place then (10 ^ place.toNat, 1) else (1, 10 ^ (-place).toNat)

/--
The digits and the place of the last of them, on the first grid that has a point in the interval.
The grids get finer from one digit on, and the point after nine is the one of the next coarser grid.
-/
def shortest (i : RoundingInterval) : Nat × Int :=
  go 18 (i.pointPlace - 1)
where
  go : Nat → Int → Nat × Int
    | 0, place => (0, place)
    | grids + 1, place =>
      match i.onGrid? (gridOf place).1 (gridOf place).2 with
      | some digits => if digits = 10 then (1, place + 1) else (digits, place)
      | none => go grids (place - 1)

end RoundingInterval

/--
The text of `digits * 10 ^ place` without an exponent and without trailing zeros after a point.
-/
def positional (digits : Nat) (place : Int) : String :=
  if 0 ≤ place then
    toString (digits * 10 ^ place.toNat)
  else
    let places := (-place).toNat
    let fraction := digits % 10 ^ places
    if fraction = 0 then toString (digits / 10 ^ places) else scaledText digits places

/--
The shortest text that reads back as the same number of the format.
-/
def shortestText (f : BinaryFormat) : Unpacked → String
  | .nan => "NaN"
  | .infinite negative => sign negative ++ "inf"
  | .finite negative 0 _ => sign negative ++ "0"
  | .finite negative mantissa exponent =>
    let (digits, place) := (RoundingInterval.around f mantissa exponent).shortest
    sign negative ++ positional digits place

/--
The text with three places that is nearest to the number, halves to the even neighbour. The sign
stays when nothing else is left.
-/
def threePlaces : Unpacked → String
  | .nan => "NaN"
  | .infinite negative => sign negative ++ "inf"
  | .finite negative mantissa exponent =>
    let thousandths :=
      if 0 ≤ exponent then mantissa * 2 ^ exponent.toNat * 1000
      else roundHalfEven (mantissa * 1000) (2 ^ (-exponent).toNat)
    sign negative ++ toString (thousandths / 1000) ++ "." ++ padded 3 (thousandths % 1000)

end Number

/--
The shortest text that reads back as the same number.
-/
def Binary32.text (x : Binary32) : String :=
  Number.shortestText .single x.unpack

/--
The shortest text that reads back as the same number.
-/
def Binary64.text (x : Binary64) : String :=
  Number.shortestText .double x.unpack

/--
The text with three places that is nearest to the number.
-/
def Binary64.threePlaces (x : Binary64) : String :=
  Number.threePlaces x.unpack

end KeyedTables
