import Mathlib.Data.List.Forall2
import KeyedTables.Proofs.Key.Bytes
import KeyedTables.Proofs.Table.Schema

/-!
This module contains the order of keys, said without their encoding: numbers compare as numbers,
strings and bytes byte by byte, floating point numbers by the total order of their bit patterns, and
keys cell by cell. The encoding of keys keeps this order, and thus different keys have different
encodings.
-/

namespace KeyedTables

/-!
# Cells
-/

/--
The total order of bit patterns: what has a sign comes first, and the larger the magnitude, the
further away from zero.
-/
def BinaryFormat.totalOrder (f : BinaryFormat) (x y : Nat) : Ordering :=
  match decide (f.signWeight ≤ x), decide (f.signWeight ≤ y) with
  | true, false => .lt
  | false, true => .gt
  | false, false => compare (x % f.signWeight) (y % f.signWeight)
  | true, true => compare (y % f.signWeight) (x % f.signWeight)

namespace BinaryFormat

theorem mod_signWeight_of_le {f : BinaryFormat} {x : Nat} (hx : x < 2 * f.signWeight)
    (h : f.signWeight ≤ x) : x % f.signWeight = x - f.signWeight := by
  rw [Nat.mod_eq_sub_mod h]
  apply Nat.mod_eq_of_lt
  omega

theorem compare_rank {f : BinaryFormat} {x y : Nat} (hx : x < 2 * f.signWeight)
    (hy : y < 2 * f.signWeight) : compare (f.rank x) (f.rank y) = f.totalOrder x y := by
  unfold rank totalOrder
  -- with a sign, ranks run against the magnitudes and stay below all ranks without one
  by_cases hsx : f.signWeight ≤ x
  . by_cases hsy : f.signWeight ≤ y
    . simp only [hsx, hsy, ↓reduceIte, decide_true]
      rw [mod_signWeight_of_le hx hsx, mod_signWeight_of_le hy hsy]
      apply compare_eq_compare <;> omega
    . simp only [hsx, hsy, ↓reduceIte, decide_true, decide_false]
      rw [Nat.compare_eq_lt]
      omega
  . by_cases hsy : f.signWeight ≤ y
    . simp only [hsx, hsy, ↓reduceIte, decide_true, decide_false]
      rw [Nat.compare_eq_gt]
      omega
    . simp only [hsx, hsy, ↓reduceIte, decide_false]
      rw [Nat.mod_eq_of_lt (by omega), Nat.mod_eq_of_lt (by omega)]
      apply compare_eq_compare <;> omega

theorem rank_lt {f : BinaryFormat} {x : Nat} (hx : x < 2 * f.signWeight) :
    f.rank x < 2 * f.signWeight := by
  unfold rank
  split <;> omega

theorem eq_of_totalOrder {f : BinaryFormat} {x y : Nat} (hx : x < 2 * f.signWeight)
    (hy : y < 2 * f.signWeight) (h : f.totalOrder x y = .eq) : x = y := by
  rw [← compare_rank hx hy, Nat.compare_eq_eq] at h
  unfold rank at h
  split at h <;> split at h <;> omega

end BinaryFormat

theorem Binary32.bits_lt (x : Binary32) : x.bits.toNat < 2 * BinaryFormat.single.signWeight :=
  x.bits.toNat_lt

theorem Binary64.bits_lt (x : Binary64) : x.bits.toNat < 2 * BinaryFormat.double.signWeight :=
  x.bits.toNat_lt

namespace Cell

/--
The order of the cells of a key column. Cells of different kinds never stand in the same column.
-/
def order : Cell → Cell → Ordering
  | .bool a, .bool b => compare a b
  | .int8 a, .int8 b => compare a.toInt b.toInt
  | .int16 a, .int16 b => compare a.toInt b.toInt
  | .int32 a, .int32 b => compare a.toInt b.toInt
  | .int64 a, .int64 b => compare a.toInt b.toInt
  | .unixtimeMicros a, .unixtimeMicros b => compare a.toInt b.toInt
  | .float a, .float b => BinaryFormat.single.totalOrder a.bits.toNat b.bits.toNat
  | .double a, .double b => BinaryFormat.double.totalOrder a.bits.toNat b.bits.toNat
  | .string a, .string b => compare a.toByteArray.data.toList b.toByteArray.data.toList
  | .binary a, .binary b => compare a b
  | .decimal a, .decimal b => compare a b
  | .date a, .date b => compare a.toInt b.toInt
  | _, _ => .eq

/--
Two cells that may stand in one key column: they are of one kind, and decimals have 128 bits.
-/
inductive Comparable : Cell → Cell → Prop where
  | bool (a b : Bool) : Comparable (.bool a) (.bool b)
  | int8 (a b : Int8) : Comparable (.int8 a) (.int8 b)
  | int16 (a b : Int16) : Comparable (.int16 a) (.int16 b)
  | int32 (a b : Int32) : Comparable (.int32 a) (.int32 b)
  | int64 (a b : Int64) : Comparable (.int64 a) (.int64 b)
  | unixtimeMicros (a b : Int64) : Comparable (.unixtimeMicros a) (.unixtimeMicros b)
  | float (a b : Binary32) : Comparable (.float a) (.float b)
  | double (a b : Binary64) : Comparable (.double a) (.double b)
  | string (a b : String) : Comparable (.string a) (.string b)
  | binary (a b : List UInt8) : Comparable (.binary a) (.binary b)
  | decimal {a b : Int} (ha : Key.SignedFits 16 a) (hb : Key.SignedFits 16 b) :
    Comparable (.decimal a) (.decimal b)
  | date (a b : Int32) : Comparable (.date a) (.date b)

theorem signedFits_of_decimalFits {unscaled : Int} {precision : Nat} (hpos : 0 < precision)
    (hle : precision ≤ Decimal.maxPrecision) (h : decimalFits unscaled precision = true) :
    Key.SignedFits 16 unscaled := by
  unfold decimalFits at h
  rw [decide_eq_true_eq, Number.digitCount_le_iff hpos] at h
  have hpow : 10 ^ precision ≤ 10 ^ 38 := Nat.pow_le_pow_right (by decide) hle
  unfold Key.SignedFits
  omega

theorem comparable_of_fits {type : ColumnType} (htype : type.HasPossibleDigits) {u v : Cell}
    (hu : u.fits type = true) (hv : v.fits type = true) : Comparable u v := by
  -- a cell fits only a type of its own kind
  cases type <;> cases u <;> simp only [fits, Bool.false_eq_true] at hu
    <;> cases v <;> simp only [fits, Bool.false_eq_true] at hv
  case decimal =>
    obtain ⟨hpos, hle, _⟩ := htype
    constructor
    . exact signedFits_of_decimalFits hpos hle hu
    . exact signedFits_of_decimalFits hpos hle hv
  all_goals constructor

theorem eq_of_order {u v : Cell} (huv : Comparable u v) (h : u.order v = .eq) : u = v := by
  cases huv with
  | bool a b => exact congrArg Cell.bool (Std.LawfulEqOrd.eq_of_compare h)
  | int8 a b => exact congrArg Cell.int8 (Int8.toInt_inj.1 (Std.LawfulEqOrd.eq_of_compare h))
  | int16 a b => exact congrArg Cell.int16 (Int16.toInt_inj.1 (Std.LawfulEqOrd.eq_of_compare h))
  | int32 a b => exact congrArg Cell.int32 (Int32.toInt_inj.1 (Std.LawfulEqOrd.eq_of_compare h))
  | int64 a b => exact congrArg Cell.int64 (Int64.toInt_inj.1 (Std.LawfulEqOrd.eq_of_compare h))
  | unixtimeMicros a b =>
    exact congrArg Cell.unixtimeMicros (Int64.toInt_inj.1 (Std.LawfulEqOrd.eq_of_compare h))
  | float a b =>
    have := UInt32.toNat_inj.1 (BinaryFormat.eq_of_totalOrder a.bits_lt b.bits_lt h)
    cases a
    cases b
    simp_all
  | double a b =>
    have := UInt64.toNat_inj.1 (BinaryFormat.eq_of_totalOrder a.bits_lt b.bits_lt h)
    cases a
    cases b
    simp_all
  | string a b =>
    have := Array.toList_inj.1 (Std.LawfulEqOrd.eq_of_compare h)
    exact congrArg Cell.string (String.toByteArray_inj.1 (ByteArray.ext this))
  | binary a b => exact congrArg Cell.binary (Std.LawfulEqOrd.eq_of_compare h)
  | decimal => exact congrArg Cell.decimal (Std.LawfulEqOrd.eq_of_compare h)
  | date a b => exact congrArg Cell.date (Int32.toInt_inj.1 (Std.LawfulEqOrd.eq_of_compare h))

end Cell

namespace Key

theorem compare_encodeSigned_append {width : Nat} (hwidth : 0 < width) {i j : Int}
    (hi : SignedFits width i) (hj : SignedFits width j) (s t : List UInt8) :
    compare (encodeSigned width i ++ s) (encodeSigned width j ++ t)
      =
    (compare i j).then (compare s t) := by
  rw [compare_append (by simp)]
  rw [compare_encodeSigned hwidth hi hj]

/--
The encodings of two cells of a column compare like the cells, whatever follows them.
-/
theorem compare_encodeCell {u v : Cell} (huv : Cell.Comparable u v) (s t : List UInt8) :
    compare (encodeCell u ++ s) (encodeCell v ++ t) = (u.order v).then (compare s t) := by
  cases huv with
  | bool a b => cases a <;> cases b <;> rfl
  | int8 a b =>
    apply compare_encodeSigned_append (by decide)
    . exact ⟨a.le_toInt, a.toInt_lt⟩
    . exact ⟨b.le_toInt, b.toInt_lt⟩
  | int16 a b =>
    apply compare_encodeSigned_append (by decide)
    . exact ⟨a.le_toInt, a.toInt_lt⟩
    . exact ⟨b.le_toInt, b.toInt_lt⟩
  | int32 a b =>
    apply compare_encodeSigned_append (by decide)
    . exact ⟨a.le_toInt, a.toInt_lt⟩
    . exact ⟨b.le_toInt, b.toInt_lt⟩
  | int64 a b =>
    apply compare_encodeSigned_append (by decide)
    . exact ⟨a.le_toInt, a.toInt_lt⟩
    . exact ⟨b.le_toInt, b.toInt_lt⟩
  | unixtimeMicros a b =>
    apply compare_encodeSigned_append (by decide)
    . exact ⟨a.le_toInt, a.toInt_lt⟩
    . exact ⟨b.le_toInt, b.toInt_lt⟩
  | float a b =>
    unfold encodeCell Cell.order
    rw [compare_append (by simp)]
    rw [compare_bigEndian (BinaryFormat.rank_lt a.bits_lt) (BinaryFormat.rank_lt b.bits_lt)]
    rw [Binary32.rank, Binary32.rank, BinaryFormat.compare_rank a.bits_lt b.bits_lt]
  | double a b =>
    unfold encodeCell Cell.order
    rw [compare_append (by simp)]
    rw [compare_bigEndian (BinaryFormat.rank_lt a.bits_lt) (BinaryFormat.rank_lt b.bits_lt)]
    rw [Binary64.rank, Binary64.rank, BinaryFormat.compare_rank a.bits_lt b.bits_lt]
  | string a b => apply compare_encodeBytes
  | binary a b => apply compare_encodeBytes
  | decimal ha hb => exact compare_encodeSigned_append (by decide) ha hb s t
  | date a b =>
    apply compare_encodeSigned_append (by decide)
    . exact ⟨a.le_toInt, a.toInt_lt⟩
    . exact ⟨b.le_toInt, b.toInt_lt⟩

end Key

end KeyedTables
