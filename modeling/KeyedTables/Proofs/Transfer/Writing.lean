import KeyedTables.Proofs.Transfer.Reading

/-!
This module contains what becomes of a value that is written to a column: a cell that may stand
there, and that is read as the same value. Only decimals come back in another form, with the
precision and the scale of the column.
-/

namespace KeyedTables

namespace Decimal

theorem make_eq_ok {unscaled : Int} {precision scale : Nat} {d : Decimal}
    (h : make unscaled precision scale = .ok d) :
    d.unscaled = unscaled ∧ d.precision = precision ∧ d.scale = scale := by
  unfold make at h
  split at h
  . rw [Except.ok.injEq] at h
    rw [← h]
    exact ⟨rfl, rfl, rfl⟩
  . contradiction

theorem toOption_make_eq_some {unscaled : Int} {precision scale : Nat} {d : Decimal}
    (h : (make unscaled precision scale).toOption = some d) :
    d.unscaled = unscaled ∧ d.precision = precision ∧ d.scale = scale := by
  cases hmake : make unscaled precision scale with
  | error e => simp [hmake, Except.toOption] at h
  | ok e =>
    have : e = d := by simpa [hmake, Except.toOption] using h
    rw [← this]
    exact make_eq_ok hmake

theorem mul_pow_eq_iff {u v : Int} {m n : Nat} (hle : m ≤ n) :
    u * 10 ^ m = v * 10 ^ n ↔ u = v * 10 ^ (n - m) := by
  have hpow : (10 : Int) ^ n = 10 ^ (n - m) * 10 ^ m := by
    rw [← Int.pow_add, Nat.sub_add_cancel hle]
  rw [hpow, ← Int.mul_assoc]
  exact Int.mul_eq_mul_right_iff (Int.pow_ne_zero (by decide))

theorem rescale_eq_some {d r : Decimal} {precision scale : Nat}
    (h : d.rescale precision scale = some r) :
    r.precision = precision ∧ r.scale = scale
      ∧ r.unscaled * 10 ^ d.scale = d.unscaled * 10 ^ scale := by
  unfold rescale at h
  dsimp only at h
  split at h
  . next hle =>
    simp only [Option.bind_eq_bind, Option.bind_eq_some_iff, Int128.checkedPow, Int128.checkedMul,
      Int128.checked_eq_some_iff] at h
    obtain ⟨factor, ⟨-, rfl⟩, unscaled, ⟨-, rfl⟩, hmake⟩ := h
    obtain ⟨hunscaled, hprecision, hscale⟩ := toOption_make_eq_some hmake
    exact ⟨hprecision, hscale, (mul_pow_eq_iff hle).2 hunscaled⟩
  . next hgt =>
    simp only [Option.bind_eq_bind, Option.bind_eq_some_iff, Int128.checkedPow,
      Int128.checked_eq_some_iff] at h
    obtain ⟨factor, ⟨-, rfl⟩, hmake⟩ := h
    split at hmake
    . next hmod =>
      rw [Option.bind_some] at hmake
      obtain ⟨hunscaled, hprecision, hscale⟩ := toOption_make_eq_some hmake
      refine ⟨hprecision, hscale, Eq.symm ?_⟩
      rw [mul_pow_eq_iff (by omega), hunscaled, Int.tdiv_mul_cancel_of_tmod_eq_zero hmod]
    . contradiction

end Decimal

namespace Value

variable {v : Value} {c : Column} {target : Target}

/--
The value as it comes back from a column: a decimal of the same numeric value with the column's
precision and scale, and any other value as it is.
-/
inductive RereadIn (type : ColumnType) : Value → Value → Prop where
  | same {v : Value} (h : ∀ d, v ≠ .decimal d) : RereadIn type v v
  | decimal {d e : Decimal} (htype : type = .decimal e.precision e.scale)
    (h : e.unscaled * 10 ^ d.scale = d.unscaled * 10 ^ e.scale) :
    RereadIn type (.decimal d) (.decimal e)

theorem toCell_shows {cell : Cell} (h : v.toCell c target = .ok (some cell)) :
    ∃ w, c.type.Shows (some cell) w ∧ RereadIn c.type v w := by
  unfold toCell at h
  split at h
  case h_2 x htype =>
    cases h
    exact ⟨_, htype ▸ .double x, .same (by simp)⟩
  case h_3 x htype =>
    cases h
    exact ⟨_, htype ▸ .float x, .same (by simp)⟩
  case h_4 i htype =>
    cases h
    exact ⟨_, htype ▸ .int8 i, .same (by simp)⟩
  case h_5 i htype =>
    cases h
    exact ⟨_, htype ▸ .int16 i, .same (by simp)⟩
  case h_6 i htype =>
    cases h
    exact ⟨_, htype ▸ .int32 i, .same (by simp)⟩
  case h_7 i htype =>
    cases h
    exact ⟨_, htype ▸ .int64 i, .same (by simp)⟩
  case h_8 s htype =>
    cases h
    exact ⟨_, htype ▸ .string s, .same (by simp)⟩
  case h_9 b htype =>
    cases h
    exact ⟨_, htype ▸ .bool b, .same (by simp)⟩
  case h_10 bytes htype =>
    cases h
    exact ⟨_, htype ▸ .binary bytes, .same (by simp)⟩
  case h_11 micros htype =>
    cases h
    exact ⟨_, htype ▸ .unixtimeMicros micros, .same (by simp)⟩
  case h_12 precision scale d htype =>
    split at h
    . next r hr =>
      obtain ⟨hprecision, hscale, hvalue⟩ := Decimal.rescale_eq_some hr
      rw [Except.ok.injEq, Option.some.injEq] at h
      rw [htype, ← hprecision, ← hscale, ← h]
      exact ⟨.decimal r, .decimal r, .decimal rfl (by rwa [hscale])⟩
    . contradiction
  all_goals simp at h

/-!
# The cell of a value
-/

variable {cell : Option Cell}

/--
The cell that a value has in a column, if it can be converted and is not missing. It does not depend
on what the value is converted for, which only errors tell.
-/
def cellIn? (v : Value) (c : Column) : Option Cell :=
  match v.toCell c ⟨"", .bare []⟩ with
  | .ok cell => cell
  | .error _ => none

def ConvertsTo (v : Value) (c : Column) : Prop :=
  ∃ cell, ∀ target, v.toCell c target = .ok cell

theorem toCell_eq_ok (h : v.toCell c target = .ok cell) (other : Target) :
    v.toCell c other = .ok cell := by
  unfold toCell at *
  split at h
  case h_12 precision scale d htype =>
    split at h
    . next r hr => simpa [htype, hr] using h
    . contradiction
  all_goals simp_all

theorem eq_null_of_toCell (h : v.toCell c target = .ok none) : v = .null := by
  unfold toCell at h
  split at h
  case h_1 => rfl
  case h_12 =>
    split at h
    . simp at h
    . contradiction
  all_goals simp at h

theorem isNull_of_toCell {cell : Cell} (h : v.toCell c target = .ok (some cell)) :
    v.isNull = false := by
  cases v with
  | null => simp [toCell] at h
  | _ => rfl

theorem cellIn?_eq (h : v.toCell c target = .ok cell) : v.cellIn? c = cell := by
  unfold cellIn?
  rw [toCell_eq_ok h]

theorem ConvertsTo.toCell_eq (h : v.ConvertsTo c) (target : Target) :
    v.toCell c target = .ok (v.cellIn? c) := by
  obtain ⟨cell, hcell⟩ := h
  rw [cellIn?_eq (hcell target), hcell]

theorem cellIn?_shows {cell : Cell} (h : v.cellIn? c = some cell) :
    ∃ w, c.type.Shows (some cell) w ∧ RereadIn c.type v w := by
  unfold cellIn? at h
  split at h
  . next hcell => exact toCell_shows (by rw [hcell, h])
  . contradiction

theorem cellIn?_fits {cell : Cell} (h : v.cellIn? c = some cell) : cell.fits c.type = true := by
  obtain ⟨w, hw, -⟩ := cellIn?_shows h
  exact hw.fits

end Value

end KeyedTables
