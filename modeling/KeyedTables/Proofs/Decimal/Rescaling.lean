import KeyedTables.Proofs.Transfer.RoundTrip

/-!
This module contains that a decimal takes on another precision and scale exactly if its numeric
value can be written with them. Done one by one in machine arithmetic, the steps of the conversion
all have a result: no number leaves its range, no difference falls below zero, and no divisor is
zero. Cells count the digits of a decimal in the same loop.
-/

namespace KeyedTables

/--
Why a step of machine arithmetic has no result.
-/
inductive Fault where
  | overflow
  | underflow
  | divisionByZero
  deriving DecidableEq

namespace Machine

/--
The difference of two numbers without sign.
-/
def difference (a b : Nat) : Except Fault Nat :=
  if b ≤ a then .ok (a - b) else .error .underflow

/--
The next number of 8 bits.
-/
def next (n : Nat) : Except Fault Nat :=
  if n + 1 < 2 ^ 8 then .ok (n + 1) else .error .overflow

/--
The quotient of signed 128-bit integers, rounded toward zero.
-/
def quotient (a b : Int) : Except Fault Int :=
  if b = 0 then .error .divisionByZero
  else if Int128.InRange (a.tdiv b) then .ok (a.tdiv b)
  else .error .overflow

/--
The remainder of signed 128-bit integers. It has no result where the quotient has none.
-/
def remainder (a b : Int) : Except Fault Int :=
  if b = 0 then .error .divisionByZero
  else if Int128.InRange (a.tdiv b) then .ok (a.tmod b)
  else .error .overflow

/--
Count the digits that a magnitude has before its last one, in 8 bits and from `digits` on.
-/
def countDigits (digits magnitude : Nat) : Except Fault Nat :=
  if magnitude < 10 then .ok digits
  else do
    let digits ← next digits
    countDigits digits (magnitude / 10)

theorem difference_of_le {a b : Nat} (h : b ≤ a) : difference a b = .ok (a - b) := by
  unfold difference
  rw [if_pos h]

theorem quotient_of_inRange {a b : Int} (hb : b ≠ 0) (h : Int128.InRange (a.tdiv b)) :
    quotient a b = .ok (a.tdiv b) := by
  unfold quotient
  rw [if_neg hb, if_pos h]

theorem remainder_of_inRange {a b : Int} (hb : b ≠ 0) (h : Int128.InRange (a.tdiv b)) :
    remainder a b = .ok (a.tmod b) := by
  unfold remainder
  rw [if_neg hb, if_pos h]

theorem digitCount_of_lt {n : Nat} (h : n < 10) : Number.digitCount n = 1 := by
  unfold Number.digitCount
  rw [Nat.toDigits_of_lt_base h]
  rfl

theorem digitCount_of_le {n : Nat} (h : 10 ≤ n) :
    Number.digitCount n = Number.digitCount (n / 10) + 1 := by
  unfold Number.digitCount
  rw [Nat.toDigits_of_base_le (by decide) h, List.length_append, List.length_singleton]

/--
The loop counts the digits of every magnitude whose number of digits has 8 bits.
-/
theorem countDigits_eq {digits magnitude : Nat}
    (h : digits + Number.digitCount magnitude ≤ 2 ^ 8) :
    countDigits digits magnitude = .ok (digits + Number.digitCount magnitude - 1) := by
  fun_induction countDigits digits magnitude with
  | case1 digits magnitude hlt => rw [digitCount_of_lt hlt, Nat.add_sub_cancel]
  | case2 digits magnitude hge ih =>
    have hcount := digitCount_of_le (Nat.le_of_not_lt hge)
    have hpos := Number.digitCount_pos (magnitude / 10)
    have hnext : next digits = .ok (digits + 1) := by
      unfold next
      rw [if_pos (by omega)]
    rw [hnext]
    dsimp only [bind, Except.bind]
    rw [ih (digits + 1) (by omega)]
    congr 1
    omega

theorem countDigits_unscaled {unscaled : Int} (h : Int128.InRange unscaled) :
    countDigits 1 unscaled.natAbs = .ok (Number.digitCount unscaled.natAbs) := by
  have hdigits : Number.digitCount unscaled.natAbs ≤ 39 := by
    rw [Number.digitCount_le_iff (by decide)]
    have : 2 ^ 127 < 10 ^ 39 := by decide
    unfold Int128.InRange Int128.minValue Int128.maxValue at h
    omega
  rw [countDigits_eq (by omega), Nat.add_sub_cancel_left]

end Machine

/--
Whether an unscaled decimal has at most so many digits, with the digits counted in machine
arithmetic.
-/
def Cell.decimalFitsSteps (unscaled : Int) (precision : Nat) : Except Fault Bool := do
  let digits ← Machine.countDigits 1 unscaled.natAbs
  .ok (decide (digits ≤ precision))

/--
The digits of a cell are counted without a fault, and together the steps judge as the cell does.
-/
theorem Cell.decimalFitsSteps_eq {unscaled : Int} (h : Int128.InRange unscaled) (precision : Nat) :
    decimalFitsSteps unscaled precision = .ok (decimalFits unscaled precision) := by
  unfold decimalFitsSteps
  rw [Machine.countDigits_unscaled h]
  rfl

namespace Decimal

open Machine

/--
What a decimal is made of.
-/
def parts (d : Decimal) : Int × Nat × Nat :=
  (d.unscaled, d.precision, d.scale)

/--
The decimal of these parts, if there is one, with its digits counted in machine arithmetic.
-/
def makeSteps (unscaled : Int) (precision scale : Nat) :
    Except Fault (Option (Int × Nat × Nat)) :=
  if precision = 0 ∨ maxPrecision < precision ∨ precision < scale then .ok none
  else do
    let digits ← countDigits 1 unscaled.natAbs
    if precision < digits then .ok none else .ok (some (unscaled, precision, scale))

/--
The conversion to another precision and scale, step by step in machine arithmetic. A power or a
product that is too large ends it without a result, which is no fault.
-/
def rescaleSteps (d : Decimal) (precision scale : Nat) :
    Except Fault (Option (Int × Nat × Nat)) :=
  if d.scale ≤ scale then do
    let places ← difference scale d.scale
    match Int128.checkedPow 10 places with
    | none => .ok none
    | some factor =>
      match Int128.checkedMul d.unscaled factor with
      | none => .ok none
      | some unscaled => makeSteps unscaled precision scale
  else do
    let places ← difference d.scale scale
    match Int128.checkedPow 10 places with
    | none => .ok none
    | some factor => do
      let rest ← remainder d.unscaled factor
      if rest ≠ 0 then .ok none
      else do
        let unscaled ← quotient d.unscaled factor
        makeSteps unscaled precision scale

variable {d : Decimal} {precision scale : Nat}

theorem makeSteps_eq {unscaled : Int} (h : Int128.InRange unscaled) :
    makeSteps unscaled precision scale
      = .ok ((make unscaled precision scale).toOption.map parts) := by
  unfold makeSteps make
  rw [countDigits_unscaled h]
  dsimp only [bind, Except.bind]
  split
  . rw [dif_neg (by omega)]
    rfl
  . split
    . rw [dif_neg (by omega)]
      rfl
    . rw [dif_pos (by omega)]
      rfl

theorem inRange_tdiv_unscaled (d : Decimal) (factor : Int) :
    Int128.InRange (d.unscaled.tdiv factor) := by
  apply Int128.inRange_of_natAbs_le
  calc (d.unscaled.tdiv factor).natAbs
    _ = d.unscaled.natAbs / factor.natAbs := Int.natAbs_tdiv _ _
    _ ≤ d.unscaled.natAbs := Nat.div_le_self _ _
    _ ≤ 10 ^ d.precision := d.natAbs_unscaled_lt.le
    _ ≤ 10 ^ maxPrecision := Nat.pow_le_pow_right (by decide) d.precision_le

/--
No step of the conversion is at fault, and together they do what the conversion does.
-/
theorem rescaleSteps_eq (d : Decimal) (precision scale : Nat) :
    d.rescaleSteps precision scale = .ok ((d.rescale precision scale).map parts) := by
  unfold rescaleSteps rescale
  dsimp only
  split
  . next hle =>
    rw [difference_of_le hle]
    dsimp only [bind, Except.bind]
    cases Int128.checkedPow 10 (scale - d.scale) with
    | none => rfl
    | some factor =>
      dsimp only [Option.bind]
      cases hmul : Int128.checkedMul d.unscaled factor with
      | none => rfl
      | some unscaled =>
        obtain ⟨hrange, rfl⟩ := Int128.checked_eq_some_iff.1 hmul
        exact makeSteps_eq hrange
  . next hgt =>
    rw [difference_of_le (Nat.le_of_not_le hgt)]
    dsimp only [bind, Except.bind]
    cases hpow : Int128.checkedPow 10 (d.scale - scale) with
    | none => rfl
    | some factor =>
      obtain ⟨-, rfl⟩ := Int128.checked_eq_some_iff.1 hpow
      have hfactor : (10 : Int) ^ (d.scale - scale) ≠ 0 := Int.pow_ne_zero (by decide)
      have hrange := d.inRange_tdiv_unscaled (10 ^ (d.scale - scale))
      dsimp only [Option.bind]
      rw [remainder_of_inRange hfactor hrange]
      dsimp only
      split
      . rfl
      . next hrest =>
        rw [if_pos (Decidable.not_not.1 hrest), quotient_of_inRange hfactor hrange]
        exact makeSteps_eq hrange

/--
A decimal takes on a precision and a scale exactly if they are possible and its numeric value is a
number of units of the scale with at most that many digits. The result is the one decimal of this
precision and scale with the same numeric value, and every step on the way to it has a result.
-/
theorem rescale_exact (d : Decimal) (precision scale : Nat) :
    ((∃ r, d.rescale precision scale = some r) ↔
      1 ≤ precision ∧ precision ≤ maxPrecision ∧ scale ≤ precision
        ∧ ∃ unscaled : Int, unscaled * 10 ^ d.scale = d.unscaled * 10 ^ scale
          ∧ unscaled.natAbs < 10 ^ precision)
      ∧ (∀ r, d.rescale precision scale = some r ↔
        r.precision = precision ∧ r.scale = scale
          ∧ r.unscaled * 10 ^ d.scale = d.unscaled * 10 ^ scale)
      ∧ d.rescaleSteps precision scale = .ok ((d.rescale precision scale).map parts) := by
  refine ⟨⟨?_, ?_⟩, ?_, d.rescaleSteps_eq precision scale⟩
  . rintro ⟨r, hr⟩
    obtain ⟨hprecision, hscale, -⟩ := rescale_eq_some hr
    have hdigits := And.intro r.precision_pos (And.intro r.precision_le r.scale_le)
    rw [hprecision, hscale] at hdigits
    exact ⟨hdigits.1, hdigits.2.1, hdigits.2.2, (rescale_eq_some_iff hdigits).1 ⟨r, hr⟩⟩
  . rintro ⟨hpos, hle, hscale, hunits⟩
    exact (rescale_eq_some_iff ⟨hpos, hle, hscale⟩).2 hunits
  . intro r
    constructor
    . exact rescale_eq_some
    . rintro ⟨hprecision, hscale, hvalue⟩
      exact rescale_eq_of_value hprecision hscale hvalue

end Decimal

end KeyedTables
