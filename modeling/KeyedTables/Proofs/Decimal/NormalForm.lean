import KeyedTables.Proofs.Decimal.Literal
import KeyedTables.Proofs.Transfer.RoundTrip

/-!
This module contains the normal form of decimal literals, in which no sign and no digit is to spare.
A decimal is written in normal form, by itself as well as in a column of its precision and scale.
What is written is read as a decimal of the same unscaled value and scale.
-/

namespace KeyedTables

namespace Decimal

namespace Literal

/--
The literal has no sign but that of a negative number, starts with a zero only if that is all there
is before the point, and has a point only with places after it.
-/
structure IsNormal (l : Literal) : Prop where
  mark_ne_plus : l.mark ≠ .plus
  number_ne_zero : l.mark = .minus → l.number ≠ 0
  whole_ne_nil : l.whole ≠ []
  whole_of_head? : l.whole.head? = some '0' → l.whole = ['0']
  places?_ne_nil : l.places? ≠ some []

variable {l m : Literal}

theorem isDigit_places (l : Literal) : ∀ c ∈ l.places, c.isDigit = true := by
  intro c hc
  apply l.isDigit
  exact List.mem_append_right _ hc

theorem number_eq (l : Literal) :
    l.number = 10 ^ l.places.length * Nat.ofDigitChars 10 l.whole 0
      + Nat.ofDigitChars 10 l.places 0 := by
  unfold number
  rw [Nat.ofDigitChars_append, Nat.ofDigitChars_eq_ofDigitChars_zero]

namespace IsNormal

theorem mark_eq (h : l.IsNormal) : l.mark = if l.unscaled < 0 then .minus else .absent := by
  have hnumber := h.number_ne_zero
  have hplus := h.mark_ne_plus
  unfold unscaled
  cases hmark : l.mark with
  | absent => simp
  | plus => exact absurd hmark hplus
  | minus =>
    have := hnumber hmark
    simp
    omega

theorem whole_eq (h : l.IsNormal) :
    l.whole = Nat.toDigits 10 (l.number / 10 ^ l.places.length) := by
  have hlt := Number.ofDigitChars_lt l.isDigit_places
  rw [number_eq, Nat.mul_add_div (Nat.pow_pos (by decide)), Nat.div_eq_of_lt hlt, Nat.add_zero]
  apply Number.eq_toDigits _ h.whole_ne_nil h.whole_of_head?
  intro c hc
  apply l.isDigit_whole hc

theorem places?_eq (h : l.IsNormal) :
    l.places? = if l.places.length = 0 then none else some l.places := by
  have hne := h.places?_ne_nil
  unfold places
  cases hplaces : l.places? with
  | none => rfl
  | some places =>
    have : places ≠ [] := by
      intro hnil
      rw [hplaces, hnil] at hne
      contradiction
    simpa using this

theorem chars_eq (hl : l.IsNormal) (hm : m.IsNormal) (hunscaled : l.unscaled = m.unscaled)
    (hlength : l.places.length = m.places.length) : l.chars = m.chars := by
  have hnumber : l.number = m.number := by
    rw [← natAbs_unscaled, ← natAbs_unscaled, hunscaled]
  have hmark : l.mark = m.mark := by rw [hl.mark_eq, hm.mark_eq, hunscaled]
  have hwhole : l.whole = m.whole := by rw [hl.whole_eq, hm.whole_eq, hnumber, hlength]
  have hplaces : l.places = m.places := by
    apply Number.eq_of_ofDigitChars l.isDigit_places m.isDigit_places hlength
    rw [number_eq, number_eq, hwhole, hlength] at hnumber
    apply Nat.add_left_cancel hnumber
  unfold chars
  rw [hmark, hwhole, hl.places?_eq, hm.places?_eq, hplaces]

end IsNormal

end Literal

variable (d : Decimal)

/--
The digits after the point, filled up with zeros to the scale.
-/
def writtenPlaces : List Char :=
  List.leftpad d.scale '0' (Nat.toDigits 10 (d.unscaled.natAbs % 10 ^ d.scale))

theorem ofDigitChars_writtenPlaces :
    Nat.ofDigitChars 10 d.writtenPlaces 0 = d.unscaled.natAbs % 10 ^ d.scale := by
  unfold writtenPlaces
  rw [Number.ofDigitChars_leftpad, Nat.ofDigitChars_ten_toDigits]

theorem length_writtenPlaces (h : d.scale ≠ 0) : d.writtenPlaces.length = d.scale := by
  apply Number.length_leftpad_toDigits (by omega)
  apply Nat.mod_lt _ (Nat.pow_pos (by decide))

/--
The literal that a decimal is written as.
-/
def written : Literal where
  mark := if d.unscaled < 0 then .minus else .absent
  whole := Nat.toDigits 10 (d.unscaled.natAbs / 10 ^ d.scale)
  places? := if d.scale = 0 then none else some d.writtenPlaces
  isDigit := by
    rw [List.forall_mem_append]
    refine ⟨Number.isDigit_toDigits _, ?_⟩
    split
    . intro c hc
      contradiction
    . apply Number.isDigit_leftpad
      apply Number.isDigit_toDigits
  nonempty := by simp

theorem whole_written : d.written.whole = Nat.toDigits 10 (d.unscaled.natAbs / 10 ^ d.scale) := by
  rfl

theorem mark_written : d.written.mark = if d.unscaled < 0 then .minus else .absent := by
  rfl

theorem places?_written_of_zero (h : d.scale = 0) : d.written.places? = none := by
  apply if_pos h

theorem places?_written (h : d.scale ≠ 0) : d.written.places? = some d.writtenPlaces := by
  apply if_neg h

theorem length_places_written : d.written.places.length = d.scale := by
  unfold Literal.places
  by_cases h : d.scale = 0
  . rw [d.places?_written_of_zero h, h]
    rfl
  . rw [d.places?_written h]
    apply d.length_writtenPlaces h

theorem number_written : d.written.number = d.unscaled.natAbs := by
  have hplaces : Nat.ofDigitChars 10 d.written.places 0 = d.unscaled.natAbs % 10 ^ d.scale := by
    unfold Literal.places
    by_cases h : d.scale = 0
    . rw [d.places?_written_of_zero h, h, Nat.pow_zero, Nat.mod_one]
      rfl
    . rw [d.places?_written h]
      apply ofDigitChars_writtenPlaces
  rw [Literal.number_eq, length_places_written, whole_written, Nat.ofDigitChars_ten_toDigits,
    hplaces]
  apply Nat.div_add_mod

theorem mark_written_eq_minus_iff : d.written.mark = .minus ↔ d.unscaled < 0 := by
  rw [mark_written]
  split <;> simp_all

theorem unscaled_written : d.written.unscaled = d.unscaled := by
  unfold Literal.unscaled
  rw [number_written]
  split
  . next h =>
    rw [mark_written_eq_minus_iff] at h
    omega
  . next h =>
    rw [mark_written_eq_minus_iff] at h
    omega

theorem isNormal_written : d.written.IsNormal := by
  constructor
  case mark_ne_plus =>
    rw [mark_written]
    split <;> simp
  case number_ne_zero =>
    rw [mark_written_eq_minus_iff, number_written]
    omega
  case whole_ne_nil =>
    rw [whole_written]
    apply Nat.toDigits_ne_nil
  case whole_of_head? =>
    rw [whole_written]
    intro h
    rw [Number.eq_zero_of_head?_toDigits h]
    rfl
  case places?_ne_nil =>
    intro hnil
    have hlength := d.length_places_written
    unfold Literal.places at hlength
    rw [hnil] at hlength
    rw [d.places?_written_of_zero hlength.symm] at hnil
    contradiction

theorem chars_written : d.written.chars = d.text.toList := by
  have hmark : d.written.mark.chars = if d.unscaled < 0 then ['-'] else [] := by
    rw [mark_written]
    split <;> rfl
  unfold Literal.chars text Number.scaledText
  rw [hmark, whole_written]
  by_cases h : d.scale = 0
  . rw [if_pos h, Number.toList_toString_int, d.places?_written_of_zero h, h, Nat.pow_zero,
      Nat.div_one]
    simp [fractionChars]
  . have hsign : (Number.sign (decide (d.unscaled < 0))).toList
        = if d.unscaled < 0 then ['-'] else [] := by
      unfold Number.sign
      by_cases hneg : d.unscaled < 0 <;> simp [hneg]
    rw [if_neg h, d.places?_written h]
    simp [fractionChars, hsign, Number.padded, writtenPlaces]

/--
The text is that of a literal in normal form with this unscaled value and as many places as the
scale says.
-/
def IsWrittenAs (s : String) : Prop :=
  ∃ l : Literal, l.chars = s.toList ∧ l.IsNormal ∧ l.unscaled = d.unscaled
    ∧ l.places.length = d.scale

theorem eq_text_iff (s : String) : s = d.text ↔ d.IsWrittenAs s := by
  constructor
  . rintro rfl
    exact ⟨d.written, d.chars_written, d.isNormal_written, d.unscaled_written,
      d.length_places_written⟩
  . rintro ⟨l, hs, hnormal, hunscaled, hlength⟩
    rw [← d.unscaled_written] at hunscaled
    rw [← d.length_places_written] at hlength
    apply String.toList_inj.1
    rw [← hs, ← d.chars_written]
    apply hnormal.chars_eq d.isNormal_written hunscaled hlength

theorem ofText_text :
    ∃ r, ofText d.text = .ok r ∧ r.unscaled = d.unscaled ∧ r.scale = d.scale := by
  have hprecision : d.written.precision ≤ maxPrecision := by
    have hcount := d.digitCount_le
    have hscale := d.scale_le
    have hle := d.precision_le
    unfold Literal.precision
    rw [length_places_written, number_written]
    unfold maxPrecision at *
    omega
  obtain ⟨r, hr⟩ := d.written.make_of_precision_le hprecision
  obtain ⟨hunscaled, -, hscale⟩ := make_eq_ok hr
  refine ⟨r, ?_, ?_, ?_⟩
  . rw [Literal.ofText_of_isReadable d.chars_written
      (d.written.isReadable_of_precision_le hprecision), hr]
  . rw [hunscaled, unscaled_written]
  . rw [hscale, length_places_written]

/--
Decimals are written in one way, as values and as the cells of a column. The column asks whether it
has places, the value whether it has none.
-/
theorem textIn_eq_text :
    (Cell.decimal d.unscaled).textIn (.decimal d.precision d.scale) = d.text := by
  unfold Cell.textIn text Number.scaledText
  dsimp only
  by_cases hscale : d.scale = 0
  . rw [if_neg (by omega), if_pos hscale]
    rfl
  . have hsign : Number.sign (decide (d.unscaled < 0)) = if d.unscaled < 0 then "-" else "" := by
      unfold Number.sign
      simp only [decide_eq_true_eq]
    rw [if_pos (by omega), if_neg hscale, hsign]

/--
A decimal, and a cell with its unscaled value in a column of its precision and scale, are written as
the one literal in normal form that has this unscaled value and so many places. What is read from
it has the same unscaled value and scale, and with the precision of the decimal it is the decimal.
-/
theorem text_faithful :
    (∃ r, ofText d.text = .ok r ∧ r.unscaled = d.unscaled ∧ r.scale = d.scale
        ∧ r.rescale d.precision d.scale = some d)
      ∧ (Cell.decimal d.unscaled).textIn (.decimal d.precision d.scale) = d.text
      ∧ ∀ s : String, s = d.text ↔ d.IsWrittenAs s := by
  refine ⟨?_, d.textIn_eq_text, d.eq_text_iff⟩
  obtain ⟨r, hr, hunscaled, hscale⟩ := d.ofText_text
  refine ⟨r, hr, hunscaled, hscale, ?_⟩
  apply rescale_eq_of_value rfl rfl
  rw [hunscaled, hscale]

end Decimal

end KeyedTables
