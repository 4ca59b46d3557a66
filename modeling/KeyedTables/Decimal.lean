import KeyedTables.InputError
import KeyedTables.Number.Binary
import KeyedTables.Number.Digits
import KeyedTables.Number.Int128

/-!
This module contains decimals of a fixed precision and scale: `3.50` as a decimal with ten digits,
two of them after the point, is 350 units of a hundredth.
-/

namespace KeyedTables

/--
The largest precision that a decimal can have.
-/
def Decimal.maxPrecision : Nat := 38

/--
A decimal: `unscaled / 10 ^ scale`, declared to have `precision` digits, `scale` of them after the
point.
-/
structure Decimal where
  unscaled : Int
  precision : Nat
  scale : Nat
  precision_pos : 0 < precision
  precision_le : precision ≤ Decimal.maxPrecision
  scale_le : scale ≤ precision
  digitCount_le : Number.digitCount unscaled.natAbs ≤ precision
  deriving DecidableEq

namespace Decimal

/--
The decimal with these parts, if the precision is possible and holds both the scale and the digits.
-/
def make (unscaled : Int) (precision scale : Nat) : Except InputError Decimal :=
  if h : 0 < precision ∧ precision ≤ maxPrecision ∧ scale ≤ precision
      ∧ Number.digitCount unscaled.natAbs ≤ precision then
    .ok ⟨unscaled, precision, scale, h.1, h.2.1, h.2.2.1, h.2.2.2⟩
  else
    .error (.decimalPrecision precision scale)

theorem make_eq (d : Decimal) : make d.unscaled d.precision d.scale = .ok d := by
  unfold make
  rw [dif_pos ⟨d.precision_pos, d.precision_le, d.scale_le, d.digitCount_le⟩]

/--
The decimal of the same numeric value with another precision and scale, if no digit is lost. All
steps stay within signed 128-bit integers.
-/
def rescale (d : Decimal) (precision scale : Nat) : Option Decimal := do
  let unscaled ←
    if d.scale ≤ scale then do
      let factor ← Int128.checkedPow 10 (scale - d.scale)
      Int128.checkedMul d.unscaled factor
    else do
      let factor ← Int128.checkedPow 10 (d.scale - scale)
      if d.unscaled.tmod factor = 0 then some (d.unscaled.tdiv factor) else none
  (make unscaled precision scale).toOption

/--
The text of the numeric value, with `scale` digits after the point.
-/
def text (d : Decimal) : String :=
  Number.scaledText d.unscaled d.scale

/-!
# Reading
-/

/--
Split off the sign. A sign that is not written is positive.
-/
def splitSign : List Char → Bool × List Char
  | '-' :: cs => (true, cs)
  | '+' :: cs => (false, cs)
  | cs => (false, cs)

/--
What stands before the first point and what stands after it.
-/
def splitPoint (cs : List Char) : List Char × List Char :=
  (cs.takeWhile (· ≠ '.'), (cs.dropWhile (· ≠ '.')).drop 1)

/--
One more digit of a number, if the number stays within signed 128-bit integers.
-/
def pushDigit (n : Int) (c : Char) : Option Int := do
  let n ← Int128.checkedMul n 10
  Int128.checkedAdd n ((c.toNat - '0'.toNat : Nat) : Int)

/--
The largest number of places that a literal may have, of which only as many as fit the precision are
within the range of a decimal.
-/
def maxPlaces : Nat := 255

/--
The unscaled value and the number of places of a literal, if it has the shape of one.
-/
def readLiteral (cs : List Char) : Option (Int × Nat) :=
  let (negative, body) := splitSign cs
  let (whole, places) := splitPoint body
  if whole.isEmpty && places.isEmpty then none
  else if !(whole ++ places).all Char.isDigit then none
  else if maxPlaces < places.length then none
  else do
    let magnitude ← (whole ++ places).foldlM pushDigit 0
    some (if negative then -magnitude else magnitude, places.length)

/--
The decimal of a literal. It has the scale that the literal shows and the smallest precision that
holds all digits and all places.
-/
def ofText (s : String) : Except InputError Decimal :=
  match readLiteral s.toList with
  | none => .error (.invalidDecimal s)
  | some (unscaled, scale) =>
    make unscaled (max (max (Number.digitCount unscaled.natAbs) scale) 1) scale

/-!
# Approximation
-/

/--
The power of ten in floating point, by repeated squaring of `base` from the lowest bit of the
exponent up. The fuel is the number of bits that are still to come.
-/
def floatPower (fuel : Nat) (base acc : Float) (exponent : Nat) : Float :=
  match fuel with
  | 0 => acc
  | fuel + 1 =>
    let acc := if exponent % 2 = 1 then acc * base else acc
    if exponent / 2 = 0 then acc else floatPower fuel (base * base) acc (exponent / 2)

/--
The numeric value in floating point: the unscaled value, rounded, divided by the power of ten.
-/
def toBinary64 (d : Decimal) : Binary64 :=
  .ofFloat (Float.ofInt d.unscaled / floatPower (d.scale + 1) 10.0 1.0 d.scale)

end Decimal

end KeyedTables
