import KeyedTables.Number.Power

/-!
This module contains binary floating point numbers as the bits they are stored in: how the bits are
read, when two numbers are equal as numbers, and the rank of a number in the total order of bit
patterns.
-/

namespace KeyedTables

/--
A binary interchange format, given by the widths of its fields in bits.
-/
structure BinaryFormat where
  exponentBits : Nat
  fractionBits : Nat
  deriving DecidableEq

namespace BinaryFormat

def single : BinaryFormat := ⟨8, 23⟩

def double : BinaryFormat := ⟨11, 52⟩

/--
The weight of the sign bit.
-/
def signWeight (f : BinaryFormat) : Nat :=
  2 ^ (f.exponentBits + f.fractionBits)

/--
The exponent of the last fraction bit of the smallest numbers.
-/
def minExponent (f : BinaryFormat) : Int :=
  2 - 2 ^ (f.exponentBits - 1) - (f.fractionBits : Int)

end BinaryFormat

/--
What a bit pattern stands for: not a number, an infinity, or `mantissa * 2 ^ exponent` with a sign.
-/
inductive Unpacked where
  | nan
  | infinite (negative : Bool)
  | finite (negative : Bool) (mantissa : Nat) (exponent : Int)
  deriving DecidableEq

/--
Read a bit pattern. The biased exponent 0 is that of zero and the subnormal numbers, which lack the
leading bit, and the largest one is that of the infinities and of the patterns that are no numbers.
-/
def BinaryFormat.unpack (f : BinaryFormat) (bits : Nat) : Unpacked :=
  let negative := decide (f.signWeight ≤ bits)
  let magnitude := bits % f.signWeight
  let biased := magnitude / 2 ^ f.fractionBits
  let fraction := magnitude % 2 ^ f.fractionBits
  if biased = 2 ^ f.exponentBits - 1 then
    if fraction = 0 then .infinite negative else .nan
  else if biased = 0 then
    .finite negative fraction f.minExponent
  else
    .finite negative (fraction + 2 ^ f.fractionBits) (f.minExponent + (biased - 1))

namespace Unpacked

def isNaN : Unpacked → Bool
  | .nan => true
  | _ => false

def isZero : Unpacked → Bool
  | .finite _ 0 _ => true
  | _ => false

end Unpacked

/--
The rank of a bit pattern in the total order: the more negative, the lower, `-0` just below `+0`.
-/
def BinaryFormat.rank (f : BinaryFormat) (bits : Nat) : Nat :=
  if f.signWeight ≤ bits then 2 * f.signWeight - 1 - bits else f.signWeight + bits

/--
A number of 32 bits, told apart from others by its bits.
-/
structure Binary32 where
  bits : UInt32
  deriving DecidableEq

/--
A number of 64 bits, told apart from others by its bits.
-/
structure Binary64 where
  bits : UInt64
  deriving DecidableEq

namespace Binary32

/--
What the number stands for.
-/
def unpack (x : Binary32) : Unpacked :=
  BinaryFormat.single.unpack x.bits.toNat

/--
The place of the number in the total order of bit patterns.
-/
def rank (x : Binary32) : Nat :=
  BinaryFormat.single.rank x.bits.toNat

/--
Equality as numbers: the zeros are equal to each other, and what is no number equals nothing.
-/
def equals (x y : Binary32) : Bool :=
  !x.unpack.isNaN && !y.unpack.isNaN && (decide (x = y) || x.unpack.isZero && y.unpack.isZero)

end Binary32

namespace Binary64

/--
What the number stands for.
-/
def unpack (x : Binary64) : Unpacked :=
  BinaryFormat.double.unpack x.bits.toNat

/--
The place of the number in the total order of bit patterns.
-/
def rank (x : Binary64) : Nat :=
  BinaryFormat.double.rank x.bits.toNat

/--
Equality as numbers: the zeros are equal to each other, and what is no number equals nothing.
-/
def equals (x y : Binary64) : Bool :=
  !x.unpack.isNaN && !y.unpack.isNaN && (decide (x = y) || x.unpack.isZero && y.unpack.isZero)

def zero : Binary64 := ⟨0⟩

/--
The number that the floating point unit computes with.
-/
def toFloat (x : Binary64) : Float :=
  Float.ofBits x.bits

def ofFloat (x : Float) : Binary64 :=
  ⟨x.toBits⟩

def add (x y : Binary64) : Binary64 :=
  ofFloat (x.toFloat + y.toFloat)

end Binary64

end KeyedTables
