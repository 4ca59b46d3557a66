import Mathlib.Data.List.Induction
import KeyedTables.Number.Digits

/-!
This module contains what the digits of a number spell, that a number only grows when digits are put
behind it, and that no digit of a number is a zero to spare.
-/

namespace KeyedTables

namespace Number

theorem le_ofDigitChars (ds : List Char) (n : Nat) : n ≤ Nat.ofDigitChars 10 ds n := by
  induction ds generalizing n with
  | nil => exact Nat.le_refl n
  | cons c ds ih =>
    rw [Nat.ofDigitChars_cons]
    have := ih (10 * n + (c.toNat - '0'.toNat))
    omega

theorem digit_bounds {c : Char} (hc : c.isDigit = true) :
    '0'.toNat ≤ c.toNat ∧ c.toNat ≤ '0'.toNat + 9 := by
  unfold Char.isDigit at hc
  simpa [UInt32.le_iff_toNat_le] using hc

theorem ofDigitChars_concat (ds : List Char) (c : Char) :
    Nat.ofDigitChars 10 (ds ++ [c]) 0 = 10 * Nat.ofDigitChars 10 ds 0 + (c.toNat - '0'.toNat) := by
  rw [Nat.ofDigitChars_append, Nat.ofDigitChars_cons, Nat.ofDigitChars_nil]

theorem ofDigitChars_lt {ds : List Char} (hds : ∀ c ∈ ds, c.isDigit = true) :
    Nat.ofDigitChars 10 ds 0 < 10 ^ ds.length := by
  induction ds using List.reverseRecOn with
  | nil => decide
  | append_singleton ds c ih =>
    rw [List.forall_mem_append, List.forall_mem_singleton] at hds
    have hlt := ih hds.1
    have hdigit := digit_bounds hds.2
    rw [ofDigitChars_concat, List.length_append, List.length_singleton, Nat.pow_succ]
    omega

/--
As many digits spell the same number only if they are the same digits.
-/
theorem eq_of_ofDigitChars {ds es : List Char} (hds : ∀ c ∈ ds, c.isDigit = true)
    (hes : ∀ c ∈ es, c.isDigit = true) (hlength : ds.length = es.length)
    (h : Nat.ofDigitChars 10 ds 0 = Nat.ofDigitChars 10 es 0) : ds = es := by
  induction ds using List.reverseRecOn generalizing es with
  | nil => exact (List.length_eq_zero_iff.1 hlength.symm).symm
  | append_singleton ds c ih =>
    induction es using List.reverseRecOn with
    | nil => simp at hlength
    | append_singleton es d _ =>
      rw [List.forall_mem_append, List.forall_mem_singleton] at hds hes
      rw [ofDigitChars_concat, ofDigitChars_concat] at h
      have hc := digit_bounds hds.2
      have hd := digit_bounds hes.2
      have hlast : c = d := Char.toNat_inj.1 (by omega)
      have hrest : ds = es := ih hds.1 hes.1 (by simpa using hlength) (by omega)
      rw [hlast, hrest]

theorem isDigit_toDigits (n : Nat) : ∀ c ∈ Nat.toDigits 10 n, c.isDigit = true := by
  intro c hc
  apply Nat.isDigit_of_mem_toDigits (by decide) (by decide) hc

theorem pow_le_ofDigitChars {c : Char} (ds : List Char) (hc : c.isDigit = true) (hzero : c ≠ '0') :
    10 ^ ds.length ≤ Nat.ofDigitChars 10 (c :: ds) 0 := by
  have hbounds := digit_bounds hc
  have hne : c.toNat ≠ '0'.toNat := fun h => hzero (Char.toNat_inj.1 h)
  rw [Nat.ofDigitChars_cons, Nat.ofDigitChars_eq_ofDigitChars_zero]
  calc 10 ^ ds.length
    _ = 10 ^ ds.length * 1 := (Nat.mul_one _).symm
    _ ≤ 10 ^ ds.length * (10 * 0 + (c.toNat - '0'.toNat)) := Nat.mul_le_mul_left _ (by omega)
    _ ≤ _ := Nat.le_add_right _ _

/--
Digits that start with a zero only if there is no other are the digits of the number that they
spell.
-/
theorem eq_toDigits {ds : List Char} (hds : ∀ c ∈ ds, c.isDigit = true) (hne : ds ≠ [])
    (hzero : ds.head? = some '0' → ds = ['0']) :
    ds = Nat.toDigits 10 (Nat.ofDigitChars 10 ds 0) := by
  have hpos := List.length_pos_iff.2 hne
  have hvalue : Nat.ofDigitChars 10 (Nat.toDigits 10 (Nat.ofDigitChars 10 ds 0)) 0
      = Nat.ofDigitChars 10 ds 0 := Nat.ofDigitChars_ten_toDigits
  apply eq_of_ofDigitChars hds (isDigit_toDigits _) _ hvalue.symm
  change ds.length = digitCount (Nat.ofDigitChars 10 ds 0)
  apply Nat.le_antisymm
  . cases ds with
    | nil => exact absurd rfl hne
    | cons c ds =>
      by_cases hc : c = '0'
      . have hone : ds = [] := by simpa [hc] using hzero
        rw [hone]
        apply digitCount_pos
      . have hle := pow_le_ofDigitChars ds (hds c List.mem_cons_self) hc
        by_cases hnil : ds = []
        . rw [hnil]
          apply digitCount_pos
        . have hmore := digitCount_le_iff (n := Nat.ofDigitChars 10 (c :: ds) 0)
            (List.length_pos_iff.2 hnil)
          rw [List.length_cons]
          omega
  . rw [digitCount_le_iff hpos]
    apply ofDigitChars_lt hds

theorem eq_zero_of_head?_toDigits {n : Nat} (h : (Nat.toDigits 10 n).head? = some '0') :
    n = 0 := by
  induction n using Nat.strongRecOn with
  | ind n ih =>
    by_cases hn : n < 10
    . have hdigit : ∀ m < 10, m.digitChar = '0' → m = 0 := by decide
      rw [Nat.toDigits_of_lt_base hn, List.head?_cons, Option.some.injEq] at h
      apply hdigit n hn h
    . rw [Nat.toDigits_of_base_le (by decide) (by omega), List.head?_append, Option.or_of_isSome]
        at h
      . have := ih (n / 10) (by omega) h
        omega
      . simp

theorem isDigit_leftpad (width : Nat) {ds : List Char} (hds : ∀ c ∈ ds, c.isDigit = true) :
    ∀ c ∈ List.leftpad width '0' ds, c.isDigit = true := by
  unfold List.leftpad
  rw [List.forall_mem_append]
  refine ⟨?_, hds⟩
  intro c hc
  rw [List.eq_of_mem_replicate hc]
  rfl

theorem ofDigitChars_leftpad (width : Nat) (ds : List Char) :
    Nat.ofDigitChars 10 (List.leftpad width '0' ds) 0 = Nat.ofDigitChars 10 ds 0 := by
  unfold List.leftpad
  rw [Nat.ofDigitChars_append, Nat.ofDigitChars_replicate_zero, Nat.mul_zero]

theorem length_leftpad_toDigits {width n : Nat} (hwidth : 0 < width) (h : n < 10 ^ width) :
    (List.leftpad width '0' (Nat.toDigits 10 n)).length = width := by
  rw [List.length_leftpad, Nat.max_eq_left]
  apply (digitCount_le_iff hwidth).2 h

theorem toList_toString_int (n : Int) :
    (toString n).toList = (if n < 0 then ['-'] else []) ++ Nat.toDigits 10 n.natAbs := by
  cases n with
  | ofNat n =>
    change (toString n).toList = _
    rw [Nat.toString_eq_ofList_toDigits, String.toList_ofList]
    simp
  | negSucc n =>
    change ("-" ++ (n + 1).repr).toList = _
    rw [Nat.repr_eq_ofList_toDigits]
    simp [Int.negSucc_lt_zero]

end Number

end KeyedTables
