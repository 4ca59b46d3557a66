import KeyedTables.Proofs.Transfer.Filling
import KeyedTables.Transfer.Dataset

/-!
This module contains the round trip of values through the cells of a table. The values that a column
takes are exactly those that belong to it, what it takes may stand in it, and reading a whole record
is the inverse of writing a whole row.
-/

namespace KeyedTables

namespace Int128

theorem inRange_of_natAbs_le {n : Int} (h : n.natAbs ≤ 10 ^ Decimal.maxPrecision) : InRange n := by
  have : 10 ^ Decimal.maxPrecision < 2 ^ 127 := by decide
  unfold InRange minValue maxValue
  omega

theorem checkedPow_ten {k : Nat} (h : k ≤ Decimal.maxPrecision) :
    checkedPow 10 k = some (10 ^ k) := by
  refine checked_eq_some_iff.2 ⟨inRange_of_natAbs_le ?_, rfl⟩
  rw [Int.natAbs_pow]
  exact Nat.pow_le_pow_right (by decide) h

end Int128

namespace Decimal

/--
The numeric value is a number of units of the scale, and that number has at most `precision` digits.
-/
def RepresentableIn (d : Decimal) (precision scale : Nat) : Prop :=
  ∃ unscaled : Int,
    unscaled * 10 ^ d.scale = d.unscaled * 10 ^ scale ∧ unscaled.natAbs < 10 ^ precision

variable {d : Decimal} {precision scale : Nat}

theorem natAbs_unscaled_lt (d : Decimal) : d.unscaled.natAbs < 10 ^ d.precision :=
  (Number.digitCount_le_iff d.precision_pos).1 d.digitCount_le

theorem toOption_make {unscaled : Int}
    (hdigits : 0 < precision ∧ precision ≤ maxPrecision ∧ scale ≤ precision)
    (h : unscaled.natAbs < 10 ^ precision) :
    ∃ r, (make unscaled precision scale).toOption = some r := by
  have hcount := (Number.digitCount_le_iff hdigits.1).2 h
  unfold make
  rw [dif_pos ⟨hdigits.1, hdigits.2.1, hdigits.2.2, hcount⟩]
  exact ⟨_, rfl⟩

/--
No intermediate number is too large for the result of a conversion that loses no digit.
-/
theorem rescale_eq_some_iff
    (hdigits : 0 < precision ∧ precision ≤ maxPrecision ∧ scale ≤ precision) :
    (∃ r, d.rescale precision scale = some r) ↔ d.RepresentableIn precision scale := by
  constructor
  . rintro ⟨r, hr⟩
    obtain ⟨hprecision, hscale, hvalue⟩ := rescale_eq_some hr
    refine ⟨r.unscaled, hvalue, ?_⟩
    rw [← hprecision]
    exact r.natAbs_unscaled_lt
  . rintro ⟨unscaled, hvalue, hlt⟩
    have hrange : unscaled.natAbs ≤ 10 ^ maxPrecision :=
      hlt.le.trans (Nat.pow_le_pow_right (by decide) hdigits.2.1)
    unfold rescale
    split
    . next hle =>
      have hunscaled := (mul_pow_eq_iff hle).1 hvalue
      have hmul : Int128.checkedMul d.unscaled (10 ^ (scale - d.scale)) = some unscaled :=
        Int128.checked_eq_some_iff.2
          ⟨by rw [← hunscaled]; exact Int128.inRange_of_natAbs_le hrange, hunscaled.symm⟩
      simp only [Option.bind_eq_bind, Option.bind_some, hmul,
        Int128.checkedPow_ten (k := scale - d.scale) (by omega)]
      exact toOption_make hdigits hlt
    . next hgt =>
      have hscale := d.scale_le
      have hprecision := d.precision_le
      have hunscaled := (mul_pow_eq_iff (by omega)).1 hvalue.symm
      have hmod : d.unscaled.tmod (10 ^ (d.scale - scale)) = 0 := by
        rw [hunscaled, Int.mul_tmod_left]
      have hdiv : d.unscaled.tdiv (10 ^ (d.scale - scale)) = unscaled := by
        rw [hunscaled, Int.mul_tdiv_cancel _ (Int.pow_ne_zero (by decide))]
      simp only [Option.bind_eq_bind, Option.bind_some, hmod, hdiv, if_true,
        Int128.checkedPow_ten (k := d.scale - scale) (by omega)]
      exact toOption_make hdigits hlt

theorem rescale_eq_of_value {r : Decimal} (hprecision : r.precision = precision)
    (hscale : r.scale = scale)
    (hvalue : r.unscaled * 10 ^ d.scale = d.unscaled * 10 ^ scale) :
    d.rescale precision scale = some r := by
  have hdigits := And.intro r.precision_pos (And.intro r.precision_le r.scale_le)
  have hlt := r.natAbs_unscaled_lt
  rw [hprecision] at hlt
  rw [hprecision, hscale] at hdigits
  obtain ⟨q, hq⟩ := (rescale_eq_some_iff hdigits).2 ⟨r.unscaled, hvalue, hlt⟩
  obtain ⟨hqprecision, hqscale, hqvalue⟩ := rescale_eq_some hq
  have hunscaled : q.unscaled = r.unscaled :=
    Int.eq_of_mul_eq_mul_right (Int.pow_ne_zero (by decide)) (hqvalue.trans hvalue.symm)
  rw [hq]
  cases q
  cases r
  simp_all

theorem rescale_self (d : Decimal) : d.rescale d.precision d.scale = some d :=
  rescale_eq_of_value rfl rfl rfl

end Decimal

namespace Value

variable {v w : Value} {c : Column} {target : Target}

/--
The values that a column can hold: none at all, one of its own type, or if the column has decimals
one that needs no more digits than it has.
-/
inductive BelongsTo : Value → Column → Prop where
  | missing (c : Column) : BelongsTo .null c
  | typed {v : Value} {c : Column} {type : FieldType}
    (h : ∀ precision scale, c.type ≠ .decimal precision scale) (hv : v.fieldType? = some type)
    (hc : c.fieldType = .ok type) : BelongsTo v c
  | decimal {d : Decimal} {c : Column} {precision scale : Nat}
    (hc : c.type = .decimal precision scale) (h : d.RepresentableIn precision scale) :
    BelongsTo (.decimal d) c

theorem belongsTo_of_toCell {cell : Option Cell} (hdigits : c.type.HasPossibleDigits)
    (h : v.toCell c target = .ok cell) : v.BelongsTo c := by
  unfold toCell at h
  split at h
  case h_1 => exact .missing c
  case h_12 precision scale d htype =>
    rw [htype] at hdigits
    split at h
    . next r hr => exact .decimal htype ((Decimal.rescale_eq_some_iff hdigits).1 ⟨r, hr⟩)
    . contradiction
  case h_13 | h_14 | h_15 | h_16 => contradiction
  all_goals
    next htype => exact .typed (by simp [htype]) rfl (by simp [Column.fieldType, htype])

theorem BelongsTo.exists_toCell (hdigits : c.type.HasPossibleDigits) (h : v.BelongsTo c)
    (target : Target) : ∃ cell, v.toCell c target = .ok cell := by
  cases h with
  | missing => exact ⟨none, by unfold toCell; split <;> simp_all⟩
  | @typed _ _ type hother hv hc =>
    unfold Column.fieldType at hc
    unfold toCell
    -- only a value of the column's own type has the type of its fields
    cases htype : c.type <;> simp [htype] at hc hother
      <;> cases v <;> simp [← hc, fieldType?] at hv ⊢
  | decimal htype h =>
    rw [htype] at hdigits
    obtain ⟨r, hr⟩ := (Decimal.rescale_eq_some_iff hdigits).2 h
    exact ⟨some (.decimal r.unscaled), by simp [toCell, htype, hr]⟩

theorem toCell_ne_store (e : StoreError) : v.toCell c target ≠ .error (.store e) := by
  intro h
  unfold toCell at h
  split at h
  case h_12 => split at h <;> simp at h
  all_goals simp at h

/--
What a cell shows is written back as the same cell.
-/
theorem toCell_of_shows {cell : Option Cell} (h : c.type.Shows cell v) (target : Target) :
    v.toCell c target = .ok cell := by
  generalize htype : c.type = type at h
  cases h with
  | decimal d => simp [toCell, htype, d.rescale_self]
  | missing => unfold toCell; split <;> simp_all
  | _ => simp [toCell, htype]

theorem rereadIn_of_shows {cell : Option Cell} (h : v.toCell c target = .ok cell)
    (hw : c.type.Shows cell w) : RereadIn c.type v w := by
  cases cell with
  | none =>
    have hnull := ColumnType.Shows.unique hw (.missing c.type)
    rw [eq_null_of_toCell h, hnull]
    exact .same (by simp)
  | some cell =>
    obtain ⟨w', hw', hreread⟩ := toCell_shows h
    rwa [hw.unique hw']

end Value

namespace Draft

variable {d d' : Draft} {c : Column} {v : Value} {target : Target}

theorem exists_set {cell : Cell} (hc : c ∈ d.schema.columns) (h : cell.fits c.type = true) :
    ∃ d', d.set c.name cell = .ok d' := by
  obtain ⟨i, hi⟩ := List.mem_iff_getElem?.1 hc
  have hindex : d.schema.indexOf? c.name = some i :=
    TableSchema.indexOf?_eq_some_iff.2 ⟨c, hi, rfl⟩
  unfold set
  split
  . next hnone => simp [hindex] at hnone
  . next j hj =>
    rw [hindex, Option.some.injEq] at hj
    split
    . next hnone => simp [← hj, hi] at hnone
    . next e he =>
      rw [← hj, hi, Option.some.injEq] at he
      rw [dif_pos (he ▸ h)]
      exact ⟨_, rfl⟩

theorem exists_put {cell : Option Cell} (hc : c ∈ d.schema.columns)
    (h : v.toCell c target = .ok cell) : ∃ d', d.put c v target = .ok d' := by
  unfold put
  rw [h]
  cases cell with
  | none => exact ⟨d, rfl⟩
  | some cell =>
    obtain ⟨w, hw, -⟩ := Value.toCell_shows h
    obtain ⟨d', hd'⟩ := exists_set hc hw.fits
    exact ⟨d', by simp [hd']⟩

theorem put_ne_store (hc : c ∈ d.schema.columns) (e : StoreError) :
    d.put c v target ≠ .error (.store e) := by
  intro h
  cases hcell : v.toCell c target with
  | error e' =>
    have : e' = .store e := by simpa [put, hcell] using h
    rw [this] at hcell
    exact Value.toCell_ne_store e hcell
  | ok cell =>
    obtain ⟨d', hd'⟩ := exists_put hc hcell
    rw [hd'] at h
    contradiction

/--
A value that was put into a draft is read from its cells.
-/
theorem value_of_put (hc : c ∈ d.schema.columns) (hsupported : c.type.IsSupported)
    (hv : v ≠ .null) (h : d.put c v target = .ok d') :
    ∃ w, Record.value ⟨d'.schema, d'.cells⟩ c = .ok w ∧ Value.RereadIn c.type v w := by
  obtain ⟨k, hk⟩ := List.mem_iff_getElem?.1 hc
  obtain ⟨hschema, hcells⟩ := put_eq_ok hk h
  obtain ⟨cell, hcell⟩ := exists_toCell_of_put h
  rw [← hschema] at hk
  have hlocate := Record.locate_eq (r := ⟨d'.schema, d'.cells⟩) hk
  have hjoin : d'.cells[k]?.join = cell := by
    rw [hcells, if_pos rfl, Value.cellIn?_eq hcell]
    cases cell with
    | none => exact absurd (Value.eq_null_of_toCell hcell) hv
    | some cell => rfl
  obtain ⟨w, hw, hshows⟩ := Record.value_shows hlocate
    (fun u hu => (fitColumns_iff.1 d'.fitColumns).2 k c u hk hu)
    (d'.schema.hasPossibleDigits (List.mem_of_getElem? hk)) hsupported
  rw [hjoin] at hshows
  exact ⟨w, hw, Value.rereadIn_of_shows hcell hshows⟩

theorem value_of_unset (hc : c ∈ d.schema.columns) (h : d.get? c.name = none) :
    Record.value ⟨d.schema, d.cells⟩ c = .ok .null := by
  obtain ⟨k, hk⟩ := List.mem_iff_getElem?.1 hc
  have hlocate := Record.locate_eq (r := ⟨d.schema, d.cells⟩) hk
  unfold get? at h
  rw [TableSchema.indexOf?_eq_some_iff.2 ⟨c, hk, rfl⟩] at h
  dsimp only at h hlocate
  rw [h] at hlocate
  simp [Record.value, Record.isNull, hlocate]

end Draft

/-!
# Whole rows
-/

namespace Dataset

variable {s : TableSchema} {values : List Value}

theorem putAll_of_belongsTo (target : Target) {before cs : List Column} {d : Draft}
    (hs : d.schema.columns = before ++ cs) (h : List.Forall₂ Value.BelongsTo values cs) :
    ∃ d', putAll target d (cs.zip values) = .ok d' ∧ d'.schema = d.schema
      ∧ (∀ i < before.length, d'.cells[i]?.join = d.cells[i]?.join)
      ∧ ∀ (i : Nat) (c : Column) (v : Value), cs[i]? = some c → values[i]? = some v →
        d'.cells[before.length + i]?.join
          = (v.cellIn? c <|> d.cells[before.length + i]?.join) := by
  induction h generalizing before d with
  | nil => exact ⟨d, rfl, rfl, fun _ _ => rfl, by simp⟩
  | @cons v c values cs hv _ ih =>
    have hk : d.schema.columns[before.length]? = some c := by simp [hs]
    have hc := List.mem_of_getElem? hk
    obtain ⟨cell, hcell⟩ := hv.exists_toCell (d.schema.hasPossibleDigits hc) target
    obtain ⟨d₁, hput⟩ := Draft.exists_put hc hcell
    obtain ⟨hschema, hcells⟩ := Draft.put_eq_ok hk hput
    have hs' : d₁.schema.columns = (before ++ [c]) ++ cs := by
      rw [hschema, hs, List.append_assoc]
      rfl
    obtain ⟨d', hd', hschema', hbefore, hafter⟩ := ih hs'
    rw [List.length_append, List.length_singleton] at hbefore hafter
    refine ⟨d', by simpa [putAll, hput] using hd', hschema'.trans hschema, ?_, ?_⟩
    . intro i hi
      rw [hbefore i (by omega), hcells, if_neg (by omega)]
    . intro i e u he hu
      cases i with
      | zero =>
        simp only [List.getElem?_cons_zero, Option.some.injEq] at he hu
        rw [Nat.add_zero, hbefore _ (by omega), hcells, if_pos rfl, he, hu]
      | succ i =>
        rw [← Nat.add_assoc, Nat.add_right_comm, hafter i e u he hu, hcells, if_neg (by omega)]

theorem putAll_empty (target : Target) (h : List.Forall₂ Value.BelongsTo values s.columns) :
    ∃ d, putAll target (.empty s) (s.columns.zip values) = .ok d ∧ d.schema = s
      ∧ ∀ (i : Nat) (c : Column) (v : Value), s.columns[i]? = some c → values[i]? = some v →
        d.cells[i]?.join = v.cellIn? c := by
  have hs : (Draft.empty s).schema.columns = [] ++ s.columns := rfl
  obtain ⟨d, hd, hschema, -, hcells⟩ := putAll_of_belongsTo target hs h
  refine ⟨d, hd, hschema, ?_⟩
  intro i c v hc hv
  have hcell := hcells i c v hc hv
  rw [List.length_nil, Nat.zero_add, Draft.join_getElem?_empty] at hcell
  simpa using hcell

/--
Values that belong to the columns of a table are read back from the draft that they were put into.
-/
theorem toRow_of_putAll (hsupported : ∀ c ∈ s.columns, c.type.IsSupported) (target : Target)
    (schema : RowSchema) (h : List.Forall₂ Value.BelongsTo values s.columns) :
    ∃ d ws, putAll target (.empty s) (s.columns.zip values) = .ok d
      ∧ Record.toRow ⟨s, d.cells⟩ schema = .ok (.named schema ws)
      ∧ List.Forall₂ (fun e w => Value.RereadIn e.1.type e.2 w) (s.columns.zip values) ws := by
  obtain ⟨d, hd, hschema, hcells⟩ := putAll_empty target h
  have hfit : FitColumns s.columns d.cells := hschema ▸ d.fitColumns
  obtain ⟨ws, hws, hlength, hshows⟩ := Record.valuesOf_shows hfit hsupported
  refine ⟨d, ws, hd, by simp [Record.toRow, hws], List.forall₂_iff_get.2 ⟨?_, ?_⟩⟩
  . rw [List.length_zip, h.length_eq, hlength, Nat.min_self]
  . intro i hi hi'
    rw [List.length_zip, Nat.lt_min] at hi
    have hc := List.getElem?_eq_getElem hi.1
    have hv := List.getElem?_eq_getElem hi.2
    obtain ⟨w, hw, hwshows⟩ := hshows i _ hc
    rw [List.getElem?_eq_getElem hi', Option.some.injEq] at hw
    have hbelongs : values[i].BelongsTo s.columns[i] := (List.forall₂_iff_get.1 h).2 i hi.2 hi.1
    obtain ⟨cell, hcell⟩ :=
      hbelongs.exists_toCell (s.hasPossibleDigits (List.getElem_mem hi.1)) target
    rw [hcells i _ _ hc hv, Value.cellIn?_eq hcell] at hwshows
    simpa [hw] using Value.rereadIn_of_shows hcell hwshows

/--
The values of a record, put into a draft, give the cells of the record.
-/
theorem putAll_of_toRow (hsupported : ∀ c ∈ s.columns, c.type.IsSupported) (target : Target)
    (schema : RowSchema) {cells : Cells} (hfit : FitColumns s.columns cells) :
    ∃ ws d, Record.toRow ⟨s, cells⟩ schema = .ok (.named schema ws)
      ∧ putAll target (.empty s) (s.columns.zip ws) = .ok d ∧ d.cells = cells := by
  obtain ⟨ws, hws, hlength, hshows⟩ := Record.valuesOf_shows hfit hsupported
  have hbelongs : List.Forall₂ Value.BelongsTo ws s.columns := by
    refine List.forall₂_iff_get.2 ⟨hlength, ?_⟩
    intro i hi hi'
    obtain ⟨w, hw, hwshows⟩ := hshows i _ (List.getElem?_eq_getElem hi')
    rw [List.getElem?_eq_getElem hi, Option.some.injEq] at hw
    rw [List.get_eq_getElem, List.get_eq_getElem, hw]
    exact Value.belongsTo_of_toCell (s.hasPossibleDigits (List.getElem_mem hi'))
      (Value.toCell_of_shows hwshows target)
  obtain ⟨d, hd, hschema, hcells⟩ := putAll_empty target hbelongs
  have hd_length : d.cells.length = s.columns.length := by
    rw [d.fitColumns.length_eq, hschema]
  refine ⟨ws, d, by simp [Record.toRow, hws], hd, ?_⟩
  apply List.ext_getElem (by rw [hd_length, hfit.length_eq])
  intro i hi hi'
  have hc : s.columns[i]? = some s.columns[i] := List.getElem?_eq_getElem (by omega)
  obtain ⟨w, hw, hwshows⟩ := hshows i _ hc
  have hcell := hcells i _ w hc hw
  rw [Value.cellIn?_eq (Value.toCell_of_shows hwshows target)] at hcell
  rwa [List.getElem?_eq_getElem hi, List.getElem?_eq_getElem hi'] at hcell

end Dataset

namespace TableSchema

/--
The conversions between values and the cells of a column of the table agree with each other.
-/
structure RoundTrips (s : TableSchema) (c : Column) : Prop where
  converts_iff : ∀ (v : Value) (target : Target),
    (∃ cell, v.toCell c target = .ok cell) ↔ v.BelongsTo c
  fits : ∀ (v : Value) (target : Target) (cell : Cell),
    v.toCell c target = .ok (some cell) → cell.fits c.type = true
  sets : ∀ (v : Value) (target : Target) (cell : Cell) (d : Draft), d.schema = s →
    v.toCell c target = .ok (some cell) → ∃ d', d.set c.name cell = .ok d'
  put_ne_store : ∀ (v : Value) (target : Target) (d : Draft) (e : StoreError), d.schema = s →
    d.put c v target ≠ .error (.store e)
  reread : ∀ (v : Value) (target : Target) (d d' : Draft), d.schema = s → v ≠ .null →
    d.put c v target = .ok d' →
    ∃ w, Record.value ⟨s, d'.cells⟩ c = .ok w ∧ Value.RereadIn c.type v w
  missing : ∀ (target : Target) (d : Draft), d.put c .null target = .ok d
  unset : ∀ d : Draft, d.schema = s → d.get? c.name = none →
    Record.value ⟨s, d.cells⟩ c = .ok .null

theorem roundTrips_of_isSupported {s : TableSchema} {c : Column} (hc : c ∈ s.columns)
    (hsupported : c.type.IsSupported) : s.RoundTrips c where
  converts_iff := by
    intro v target
    constructor
    . rintro ⟨cell, hcell⟩
      exact Value.belongsTo_of_toCell (s.hasPossibleDigits hc) hcell
    . intro h
      exact h.exists_toCell (s.hasPossibleDigits hc) target
  fits := by
    intro v target cell h
    obtain ⟨w, hw, -⟩ := Value.toCell_shows h
    exact hw.fits
  sets := by
    rintro v target cell d rfl h
    obtain ⟨w, hw, -⟩ := Value.toCell_shows h
    exact Draft.exists_set hc hw.fits
  put_ne_store := by
    rintro v target d e rfl
    exact Draft.put_ne_store hc e
  reread := by
    rintro v target d d' rfl hv h
    obtain ⟨hschema, -⟩ := Draft.put_cellAfter (f := .optional c.name .boolean)
      (column?_eq_some_iff.2 ⟨hc, rfl⟩) h
    rw [← hschema]
    exact Draft.value_of_put hc hsupported hv h
  missing := by
    intro target d
    have hnull : Value.toCell .null c target = .ok none :=
      Value.toCell_of_shows (.missing c.type) target
    simp [Draft.put, hnull]
  unset := by
    rintro d rfl h
    exact Draft.value_of_unset hc h

/--
A column takes exactly the values that belong to it, and gives each back as it was, decimals with
its own precision and scale. Reading whole records is the inverse of putting whole rows into drafts.
-/
theorem roundTrips (s : TableSchema) :
    (∀ c ∈ s.columns, c.type.IsSupported → s.RoundTrips c)
      ∧ ((∀ c ∈ s.columns, c.type.IsSupported) → ∀ (target : Target) (schema : RowSchema),
        (∀ values : List Value, List.Forall₂ Value.BelongsTo values s.columns →
          ∃ d ws, Dataset.putAll target (.empty s) (s.columns.zip values) = .ok d
            ∧ Record.toRow ⟨s, d.cells⟩ schema = .ok (.named schema ws)
            ∧ List.Forall₂ (fun e w => Value.RereadIn e.1.type e.2 w) (s.columns.zip values) ws)
        ∧ ∀ cells : Cells, FitColumns s.columns cells →
          ∃ ws d, Record.toRow ⟨s, cells⟩ schema = .ok (.named schema ws)
            ∧ Dataset.putAll target (.empty s) (s.columns.zip ws) = .ok d ∧ d.cells = cells) := by
  refine ⟨fun c hc hsupported => roundTrips_of_isSupported hc hsupported, ?_⟩
  intro hsupported target schema
  refine ⟨?_, ?_⟩
  . intro values h
    exact Dataset.toRow_of_putAll hsupported target schema h
  . intro cells hfit
    exact Dataset.putAll_of_toRow hsupported target schema hfit

/--
The schema of items, which are told apart by a number, and may have a price and a weight.
-/
def items : TableSchema where
  columns := [.key "id" .int64, .value "price" (.decimal 10 2), .value "weight" .double]
  noProblem := by decide

/--
An item that costs 3.5 and has no weight.
-/
def itemValues : List Value :=
  [.int64 7, .decimal ⟨35, 2, 1, by decide, by decide, by decide, by decide⟩, .null]

theorem roundTrips_items :
    ((∀ c ∈ items.columns, c.type.IsSupported)
      ∧ List.Forall₂ Value.BelongsTo itemValues items.columns)
      ∧ items.RoundTrips (.value "price" (.decimal 10 2))
      ∧ ∃ d ws, Dataset.putAll ⟨"items", .bare itemValues⟩ (.empty items)
          (items.columns.zip itemValues) = .ok d
        ∧ Record.toRow ⟨items, d.cells⟩ ⟨[]⟩ = .ok (.named ⟨[]⟩ ws)
        ∧ List.Forall₂ (fun e w => Value.RereadIn e.1.type e.2 w)
            (items.columns.zip itemValues) ws := by
  have hsupported : ∀ c ∈ items.columns, c.type.IsSupported := by
    simp [items, Column.key, Column.value, ColumnType.IsSupported]
  have hbelongs : List.Forall₂ Value.BelongsTo itemValues items.columns :=
    .cons (.typed (by simp [Column.key]) rfl rfl)
      (.cons (.decimal rfl ⟨350, by decide, by decide⟩) (.cons (.missing _) .nil))
  obtain ⟨hcolumns, hrows⟩ := roundTrips items
  have hprice : items.RoundTrips (.value "price" (.decimal 10 2)) :=
    hcolumns _ (by simp [items]) trivial
  exact ⟨⟨hsupported, hbelongs⟩, hprice,
    (hrows hsupported ⟨"items", .bare itemValues⟩ ⟨[]⟩).1 itemValues hbelongs⟩

end TableSchema

end KeyedTables
