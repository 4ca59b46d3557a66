import KeyedTables.Proofs.Store.Reachable
import KeyedTables.Transfer.Conversion

/-!
This module contains what generic rows show of the rows of a table: a value for each column, which
is the value of the cell. Every row that fits a table whose column types all have field types can be
read.
-/

namespace KeyedTables

/--
Generic rows have fields of a type like this.
-/
def ColumnType.IsSupported : ColumnType → Prop
  | .date | .varchar _ | .array => False
  | _ => True

/--
The value of a cell in a column of this type.
-/
inductive ColumnType.Shows : ColumnType → Option Cell → Value → Prop where
  | missing (type : ColumnType) : Shows type none .null
  | double (x : Binary64) : Shows .double (some (.double x)) (.float64 x)
  | float (x : Binary32) : Shows .float (some (.float x)) (.float32 x)
  | int8 (i : Int8) : Shows .int8 (some (.int8 i)) (.int8 i)
  | int16 (i : Int16) : Shows .int16 (some (.int16 i)) (.int16 i)
  | int32 (i : Int32) : Shows .int32 (some (.int32 i)) (.int32 i)
  | int64 (i : Int64) : Shows .int64 (some (.int64 i)) (.int64 i)
  | string (s : String) : Shows .string (some (.string s)) (.string s)
  | bool (b : Bool) : Shows .bool (some (.bool b)) (.boolean b)
  | binary (bytes : List UInt8) : Shows .binary (some (.binary bytes)) (.binary bytes)
  | unixtimeMicros (micros : Int64) :
    Shows .unixtimeMicros (some (.unixtimeMicros micros)) (.timestamp micros)
  | decimal (d : Decimal) :
    Shows (.decimal d.precision d.scale) (some (.decimal d.unscaled)) (.decimal d)

/--
The row has the fields of the schema's columns, and shows these cells in them.
-/
structure Row.Shows (r : Row) (s : TableSchema) (cells : Cells) : Prop where
  schema_eq : ∃ schema, s.rowSchema = .ok schema ∧ r.schema? = some schema
  length_eq : r.values.length = s.columns.length
  shows : ∀ (i : Nat) (c : Column), s.columns[i]? = some c →
    ∃ v, r.values[i]? = some v ∧ c.type.Shows cells[i]?.join v

namespace ColumnType

theorem Shows.unique {type : ColumnType} {cell : Option Cell} {v w : Value}
    (hv : type.Shows cell v) (hw : type.Shows cell w) : v = w := by
  cases hv with
  | decimal d =>
    generalize htype : ColumnType.decimal d.precision d.scale = type at hw
    generalize hcell : some (Cell.decimal d.unscaled) = cell at hw
    cases hw <;> simp_all
    next e =>
      cases d
      cases e
      simp_all
  | _ => cases hw; rfl

theorem Shows.cell_unique {type : ColumnType} {cell other : Option Cell} {v : Value}
    (h : type.Shows cell v) (hother : type.Shows other v) : cell = other := by
  cases h with
  | decimal d =>
    generalize htype : ColumnType.decimal d.precision d.scale = type at hother
    generalize hvalue : Value.decimal d = v at hother
    cases hother <;> simp_all
  | _ => cases hother; rfl

theorem Shows.fits {type : ColumnType} {cell : Cell} {v : Value} (h : type.Shows (some cell) v) :
    cell.fits type = true := by
  cases h with
  | decimal d => simpa [Cell.fits, Cell.decimalFits] using d.digitCount_le
  | _ => rfl

end ColumnType

theorem Row.Shows.cells_unique {r : Row} {s : TableSchema} {cells other : Cells}
    (h : r.Shows s cells) (hother : r.Shows s other) (hlength : cells.length = s.columns.length)
    (hlength' : other.length = s.columns.length) : cells = other := by
  apply List.ext_getElem (by rw [hlength, hlength'])
  intro i hi hi'
  obtain ⟨c, hc⟩ : ∃ c, s.columns[i]? = some c :=
    ⟨_, List.getElem?_eq_getElem (by omega)⟩
  obtain ⟨v, hv, hshows⟩ := h.shows i c hc
  obtain ⟨w, hw, hshows'⟩ := hother.shows i c hc
  rw [hv, Option.some.injEq] at hw
  rw [← hw] at hshows'
  have heq := hshows.cell_unique hshows'
  rwa [List.getElem?_eq_getElem hi, List.getElem?_eq_getElem hi'] at heq

/-!
# The schema of the rows
-/

theorem Column.fieldType_of_isSupported {c : Column} (h : c.type.IsSupported) :
    ∃ type, c.fieldType = .ok type := by
  unfold Column.fieldType
  cases htype : c.type <;> simp_all [ColumnType.IsSupported]

theorem Column.fields_of_isSupported {cs : List Column} (h : ∀ c ∈ cs, c.type.IsSupported) :
    ∃ fields, Column.fields cs = .ok fields ∧ fields.map (·.name) = cs.map (·.name) := by
  induction cs with
  | nil => exact ⟨[], rfl, rfl⟩
  | cons c cs ih =>
    obtain ⟨type, htype⟩ := Column.fieldType_of_isSupported (h c List.mem_cons_self)
    obtain ⟨rest, hrest, hnames⟩ := ih fun d hd => h d (List.mem_cons_of_mem c hd)
    refine ⟨.optional c.name type :: rest, ?_, ?_⟩
    . simp [Column.fields, htype, hrest]
    . simp [Field.optional, hnames]

theorem TableSchema.rowSchema_of_isSupported {s : TableSchema}
    (h : ∀ c ∈ s.columns, c.type.IsSupported) :
    ∃ schema, s.rowSchema = .ok schema ∧ schema.names = s.names := by
  obtain ⟨fields, hfields, hnames⟩ := Column.fields_of_isSupported h
  refine ⟨⟨fields⟩, ?_, hnames⟩
  simp [TableSchema.rowSchema, hfields]

theorem Column.isSupported_of_fieldType {c : Column} {type : FieldType}
    (h : c.fieldType = .ok type) : c.type.IsSupported := by
  unfold Column.fieldType at h
  cases htype : c.type <;> simp_all [ColumnType.IsSupported]

theorem Column.isSupported_of_fields {cs : List Column} {fields : List Field}
    (h : Column.fields cs = .ok fields) : ∀ c ∈ cs, c.type.IsSupported := by
  induction cs generalizing fields with
  | nil => simp
  | cons c cs ih =>
    unfold Column.fields at h
    split at h
    . contradiction
    . next type htype =>
      split at h
      . contradiction
      . next rest hrest =>
        rw [List.forall_mem_cons]
        exact ⟨Column.isSupported_of_fieldType htype, ih hrest⟩

theorem TableSchema.isSupported_of_rowSchema {s : TableSchema} {schema : RowSchema}
    (h : s.rowSchema = .ok schema) : ∀ c ∈ s.columns, c.type.IsSupported := by
  unfold TableSchema.rowSchema at h
  split at h
  . next fields hfields => exact Column.isSupported_of_fields hfields
  . contradiction

theorem RowSchema.indexOf?_eq {schema : RowSchema} {s : TableSchema} (h : schema.names = s.names)
    (name : String) : schema.indexOf? name = s.indexOf? name := by
  have hfields : (schema.fields.map (·.name)).findIdx? (· == name) = schema.indexOf? name :=
    List.findIdx?_map
  have hcolumns : (s.columns.map (·.name)).findIdx? (· == name) = s.indexOf? name :=
    List.findIdx?_map
  rw [← hfields, ← hcolumns]
  exact congrArg (List.findIdx? (· == name)) h

theorem Row.Shows.fieldValue_eq {r : Row} {s : TableSchema} {cells : Cells} {i : Nat} {c : Column}
    (h : r.Shows s cells) (hsupported : ∀ c ∈ s.columns, c.type.IsSupported)
    (hc : s.columns[i]? = some c) :
    ∃ v, r.fieldValue c.name = .ok v ∧ c.type.Shows cells[i]?.join v := by
  obtain ⟨v, hv, hshows⟩ := h.shows i c hc
  refine ⟨v, ?_, hshows⟩
  obtain ⟨schema, hschema, hrow⟩ := h.schema_eq
  obtain ⟨schema', hschema', hnames⟩ := TableSchema.rowSchema_of_isSupported hsupported
  rw [hschema, Except.ok.injEq] at hschema'
  rw [← hschema'] at hnames
  have hindex : schema.indexOf? c.name = some i := by
    rw [RowSchema.indexOf?_eq hnames]
    exact TableSchema.indexOf?_eq_some_iff.2 ⟨c, hc, rfl⟩
  unfold Row.fieldValue
  rw [hrow]
  dsimp only
  rw [hindex]
  dsimp only
  rw [hv]

/-!
# The values
-/

namespace Record

variable {r : Record}

theorem locate_eq {i : Nat} {c : Column} (h : r.schema.columns[i]? = some c) :
    r.locate c.name = .ok (c, r.cells[i]?.join) := by
  unfold locate
  rw [TableSchema.indexOf?_eq_some_iff.2 ⟨c, h, rfl⟩]
  simp [h]

theorem asValue_read {name kind : String} {c : Column} {cell : Cell} {extract : Cell → Option α}
    {a : α} (wrap : α → Value) (hlocate : r.locate name = .ok (c, some cell))
    (hextract : extract cell = some a) :
    asValue wrap (r.read name kind extract) = .ok (wrap a) := by
  simp [read, hlocate, hextract, asValue]

theorem value_shows {c : Column} {cell : Option Cell} (hlocate : r.locate c.name = .ok (c, cell))
    (hfits : ∀ v, cell = some v → v.fits c.type = true) (hdigits : c.type.HasPossibleDigits)
    (hsupported : c.type.IsSupported) :
    ∃ v, r.value c = .ok v ∧ c.type.Shows cell v := by
  cases cell with
  | none =>
    refine ⟨.null, ?_, .missing c.type⟩
    simp [value, isNull, hlocate]
  | some cell =>
    have hcell := hfits cell rfl
    have hpresent : r.isNull c.name = .ok false := by simp [isNull, hlocate]
    unfold value
    rw [hpresent]
    -- a cell fits only a type of its own kind
    cases htype : c.type <;> rw [htype] at hcell hdigits hsupported
      <;> cases cell <;> simp only [Cell.fits, Bool.false_eq_true] at hcell
    case double x => exact ⟨_, asValue_read _ hlocate rfl, .double x⟩
    case float x => exact ⟨_, asValue_read _ hlocate rfl, .float x⟩
    case int8 i => exact ⟨_, asValue_read _ hlocate rfl, .int8 i⟩
    case int16 i => exact ⟨_, asValue_read _ hlocate rfl, .int16 i⟩
    case int32 i => exact ⟨_, asValue_read _ hlocate rfl, .int32 i⟩
    case int64 i => exact ⟨_, asValue_read _ hlocate rfl, .int64 i⟩
    case string s => exact ⟨_, asValue_read _ hlocate rfl, .string s⟩
    case bool b => exact ⟨_, asValue_read _ hlocate rfl, .bool b⟩
    case binary bytes => exact ⟨_, asValue_read _ hlocate rfl, .binary bytes⟩
    case unixtimeMicros micros => exact ⟨_, asValue_read _ hlocate rfl, .unixtimeMicros micros⟩
    case decimal precision scale unscaled =>
      obtain ⟨hpos, hle, hscale⟩ := hdigits
      have hcount : Number.digitCount unscaled.natAbs ≤ precision := by
        simpa [Cell.decimalFits] using hcell
      have hmake := Decimal.make_eq ⟨unscaled, precision, scale, hpos, hle, hscale, hcount⟩
      dsimp only at hmake
      refine ⟨_, ?_, .decimal ⟨unscaled, precision, scale, hpos, hle, hscale, hcount⟩⟩
      simp [getDecimal, read, hlocate, Cell.decimal?, hmake]
    all_goals exact hsupported.elim

theorem valuesOf_eq {cs : List Column} (h : ∀ c ∈ cs, ∃ v, r.value c = .ok v) :
    ∃ vs, r.valuesOf cs = .ok vs ∧ List.Forall₂ (fun c v => r.value c = .ok v) cs vs := by
  induction cs with
  | nil => exact ⟨[], rfl, .nil⟩
  | cons c cs ih =>
    obtain ⟨v, hv⟩ := h c List.mem_cons_self
    obtain ⟨vs, hvs, hall⟩ := ih fun d hd => h d (List.mem_cons_of_mem c hd)
    exact ⟨v :: vs, by simp [valuesOf, hv, hvs], .cons hv hall⟩

theorem valuesOf_shows {s : TableSchema} {cells : Cells} (hfit : FitColumns s.columns cells)
    (hsupported : ∀ c ∈ s.columns, c.type.IsSupported) :
    ∃ vs, valuesOf ⟨s, cells⟩ s.columns = .ok vs ∧ vs.length = s.columns.length
      ∧ ∀ (i : Nat) (c : Column), s.columns[i]? = some c →
        ∃ v, vs[i]? = some v ∧ c.type.Shows cells[i]?.join v := by
  have hvalue : ∀ (i : Nat) (c : Column), s.columns[i]? = some c →
      ∃ v, value ⟨s, cells⟩ c = .ok v ∧ c.type.Shows cells[i]?.join v := by
    intro i c hc
    have hmem := List.mem_of_getElem? hc
    exact value_shows (locate_eq hc) (fun v hv => (fitColumns_iff.1 hfit).2 i c v hc hv)
      (s.hasPossibleDigits hmem) (hsupported c hmem)
  have hreadable : ∀ c ∈ s.columns, ∃ v, value ⟨s, cells⟩ c = .ok v := by
    intro c hc
    obtain ⟨i, hi⟩ := List.mem_iff_getElem?.1 hc
    obtain ⟨v, hv, -⟩ := hvalue i c hi
    exact ⟨v, hv⟩
  obtain ⟨vs, hvs, hall⟩ := valuesOf_eq hreadable
  refine ⟨vs, hvs, hall.length_eq.symm, ?_⟩
  intro i c hc
  obtain ⟨v, hv, hshows⟩ := hvalue i c hc
  obtain ⟨hi, rfl⟩ := List.getElem?_eq_some_iff.1 hc
  have hi' : i < vs.length := by rwa [← hall.length_eq]
  have hget := (List.forall₂_iff_get.1 hall).2 i hi hi'
  refine ⟨v, ?_, hshows⟩
  rw [List.getElem?_eq_getElem hi', Option.some.injEq]
  rw [List.get_eq_getElem, List.get_eq_getElem, hv, Except.ok.injEq] at hget
  exact hget.symm

/--
A record of cells that fit its columns can be read as a generic row, which shows these cells.
-/
theorem toRow_shows {s : TableSchema} {cells : Cells} (hfit : FitColumns s.columns cells)
    (hsupported : ∀ c ∈ s.columns, c.type.IsSupported) {schema : RowSchema}
    (hschema : s.rowSchema = .ok schema) :
    ∃ row, toRow ⟨s, cells⟩ schema = .ok row ∧ row.Shows s cells := by
  obtain ⟨vs, hvs, hlength, hshows⟩ := valuesOf_shows hfit hsupported
  refine ⟨.named schema vs, by simp [toRow, hvs], ⟨schema, hschema, rfl⟩, hlength, ?_⟩
  exact hshows

end Record

end KeyedTables
