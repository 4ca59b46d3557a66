import KeyedTables.Store.Key

/-!
This module contains how byte strings compare that encode numbers and other byte strings. Two
encodings with more bytes after them compare like what they encode, and only if that is equal like
the bytes after them.
-/

namespace KeyedTables

/--
Two pairs compare the same way if the same side is smaller in both.
-/
theorem compare_eq_compare {α β : Type} [Ord α] [LT α] [LE α] [Std.LawfulOrderOrd α]
    [Std.LawfulOrderLT α] [Ord β] [LT β] [LE β] [Std.LawfulOrderOrd β] [Std.LawfulOrderLT β]
    {a b : α} {x y : β} (hlt : a < b ↔ x < y) (hgt : b < a ↔ y < x) :
    compare a b = compare x y := by
  cases hxy : compare x y with
  | lt => exact Std.compare_eq_lt.2 (hlt.2 (Std.compare_eq_lt.1 hxy))
  | gt => exact Std.compare_eq_gt.2 (hgt.2 (Std.compare_eq_gt.1 hxy))
  | eq =>
    cases hab : compare a b with
    | lt =>
      have := Std.compare_eq_lt.2 (hlt.1 (Std.compare_eq_lt.1 hab))
      simp [hxy] at this
    | gt =>
      have := Std.compare_eq_gt.2 (hgt.1 (Std.compare_eq_gt.1 hab))
      simp [hxy] at this
    | eq => rfl

theorem compare_append {a b : List UInt8} (h : a.length = b.length) (s t : List UInt8) :
    compare (a ++ s) (b ++ t) = (compare a b).then (compare s t) := by
  induction a generalizing b with
  | nil =>
    have : b = [] := by simpa using h.symm
    simp [this]
  | cons x a ih =>
    cases b with
    | nil => simp at h
    | cons y b =>
      simp only [List.cons_append, List.compare_cons_cons]
      rw [ih (by simpa using h), Ordering.then_assoc]

namespace Key

/-!
# Numbers
-/

@[simp]
theorem length_bigEndian (width n : Nat) : (bigEndian width n).length = width := by
  induction width generalizing n with
  | zero => rfl
  | succ width ih => simp [bigEndian, ih]

theorem compare_ofNat {m n : Nat} (hm : m < 256) (hn : n < 256) :
    compare (UInt8.ofNat m) (UInt8.ofNat n) = compare m n := by
  apply compare_eq_compare
  . rw [UInt8.lt_iff_toNat_lt]
    simp [Nat.mod_eq_of_lt hm, Nat.mod_eq_of_lt hn]
  . rw [UInt8.lt_iff_toNat_lt]
    simp [Nat.mod_eq_of_lt hm, Nat.mod_eq_of_lt hn]

theorem compare_div_mod {b : Nat} (hb : 0 < b) (m n : Nat) :
    (compare (m / b) (n / b)).then (compare (m % b) (n % b)) = compare m n := by
  have hm := Nat.div_add_mod m b
  have hn := Nat.div_add_mod n b
  have hmb := Nat.mod_lt m hb
  have hnb := Nat.mod_lt n hb
  cases hq : compare (m / b) (n / b) with
  | lt =>
    have hlt : m < n := Nat.lt_of_div_lt_div (Nat.compare_eq_lt.1 hq)
    rw [Ordering.lt_then, Nat.compare_eq_lt.2 hlt]
  | gt =>
    have hgt : n < m := Nat.lt_of_div_lt_div (Nat.compare_eq_gt.1 hq)
    rw [Ordering.gt_then, Nat.compare_eq_gt.2 hgt]
  | eq =>
    rw [Nat.compare_eq_eq] at hq
    rw [Ordering.eq_then]
    rw [hq] at hm
    apply compare_eq_compare <;> omega

/--
Fixed numbers of bytes, the highest first, compare like the numbers.
-/
theorem compare_bigEndian {width m n : Nat} (hm : m < 256 ^ width) (hn : n < 256 ^ width) :
    compare (bigEndian width m) (bigEndian width n) = compare m n := by
  induction width generalizing m n with
  | zero =>
    have : m = n := by omega
    simp [bigEndian, this]
  | succ width ih =>
    -- the first byte is the quotient, and the other ones encode the remainder
    have hpos : 0 < 256 ^ width := Nat.pow_pos (by decide)
    have hlast : 256 ^ (width + 1) = 256 * 256 ^ width := Nat.pow_succ'
    rw [bigEndian, bigEndian, List.compare_cons_cons]
    rw [compare_ofNat, ih (Nat.mod_lt m hpos) (Nat.mod_lt n hpos)]
    . exact compare_div_mod hpos m n
    . apply Nat.div_lt_of_lt_mul
      rwa [Nat.mul_comm, ← hlast]
    . apply Nat.div_lt_of_lt_mul
      rwa [Nat.mul_comm, ← hlast]

/--
A number that has so many bytes with a sign.
-/
def SignedFits (width : Nat) (i : Int) : Prop :=
  -2 ^ (8 * width - 1) ≤ i ∧ i < 2 ^ (8 * width - 1)

@[simp]
theorem length_encodeSigned (width : Nat) (i : Int) : (encodeSigned width i).length = width := by
  unfold encodeSigned
  simp

theorem compare_encodeSigned {width : Nat} (hwidth : 0 < width) {i j : Int}
    (hi : SignedFits width i) (hj : SignedFits width j) :
    compare (encodeSigned width i) (encodeSigned width j) = compare i j := by
  obtain ⟨hi1, hi2⟩ := hi
  obtain ⟨hj1, hj2⟩ := hj
  have hrange : (256 : Nat) ^ width = 2 ^ (8 * width - 1) + 2 ^ (8 * width - 1) := by
    rw [show 256 = 2 ^ 8 by rfl, ← Nat.pow_mul, ← Nat.two_mul, ← Nat.pow_succ']
    congr 1
    omega
  have hcast : ((2 ^ (8 * width - 1) : Nat) : Int) = 2 ^ (8 * width - 1) := by simp
  unfold encodeSigned
  rw [compare_bigEndian (by omega) (by omega)]
  apply compare_eq_compare <;> omega

/-!
# Bytes
-/

theorem compare_zero_left {b : UInt8} (h : b ≠ 0) : compare 0 b = .lt := by
  rw [Std.compare_eq_lt]
  exact UInt8.pos_iff_ne_zero.2 h

theorem compare_zero_right {b : UInt8} (h : b ≠ 0) : compare b 0 = .gt := by
  rw [Std.compare_eq_gt]
  exact UInt8.pos_iff_ne_zero.2 h

/--
The mark at the end of bytes is smaller than any byte with what follows it, also than an escaped
zero, so that a proper prefix comes first.
-/
theorem compare_encodeBytes (a b s t : List UInt8) :
    compare (encodeBytes a ++ s) (encodeBytes b ++ t) = (compare a b).then (compare s t) := by
  have hmark : compare (1 : UInt8) 255 = .lt := by decide
  have hmark' : compare (255 : UInt8) 1 = .gt := by decide
  induction a generalizing b with
  | nil =>
    cases b with
    | nil => simp [encodeBytes]
    | cons y b =>
      by_cases hy : y = 0
      . simp [encodeBytes, hy, hmark]
      . simp [encodeBytes, hy, compare_zero_left hy]
  | cons x a ih =>
    cases b with
    | nil =>
      by_cases hx : x = 0
      . simp [encodeBytes, hx, hmark']
      . simp [encodeBytes, hx, compare_zero_right hx]
    | cons y b =>
      -- a zero and the mark both begin with a zero, so it is the byte after it that tells
      by_cases hx : x = 0
      . by_cases hy : y = 0
        . simp [encodeBytes, hx, hy, ih]
        . simp [encodeBytes, hx, hy, compare_zero_left hy]
      . by_cases hy : y = 0
        . simp [encodeBytes, hx, hy, compare_zero_right hx]
        . simp [encodeBytes, hx, hy, ih, Ordering.then_assoc]

end Key

end KeyedTables
