import KeyedTables.Number.Power

/-!
This module contains the decimal digits of numbers: how many a magnitude has, its text at a fixed
width, and the text of an integer that counts units of a negative power of ten.
-/

namespace KeyedTables

namespace Number

/--
The number of decimal digits of a magnitude. Zero has one digit.
-/
def digitCount (n : Nat) : Nat :=
  (Nat.toDigits 10 n).length

theorem digitCount_pos (n : Nat) : 0 < digitCount n := by
  unfold digitCount
  exact Nat.length_toDigits_pos

theorem digitCount_le_iff {n k : Nat} (hk : 0 < k) : digitCount n ≤ k ↔ n < 10 ^ k := by
  unfold digitCount
  exact Nat.length_toDigits_le_iff (by decide) hk

/--
The decimal digits of `n`, filled up with leading zeros to `width` characters.
-/
def padded (width n : Nat) : String :=
  String.ofList (List.leftpad width '0' (Nat.toDigits 10 n))

/--
The sign of a number that is written before its magnitude.
-/
def sign (negative : Bool) : String :=
  if negative then "-" else ""

/--
The text of `unscaled / 10 ^ scale` with exactly `scale` digits after the point, and no point when
`scale` is zero.
-/
def scaledText (unscaled : Int) (scale : Nat) : String :=
  if scale = 0 then
    toString unscaled
  else
    let magnitude := unscaled.natAbs
    sign (decide (unscaled < 0)) ++ toString (magnitude / 10 ^ scale) ++ "."
      ++ padded scale (magnitude % 10 ^ scale)

end Number

end KeyedTables
