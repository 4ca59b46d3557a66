import KeyedTables.Proofs.Output.ReadBack

/-!
This module contains what the lookup for a key tells about the insert of a row with this key. The
lookup compares keys by their values, of which NaN equals nothing and the zeros equal each other.
The insert compares them by their encodings, which tell all of these apart. For every other key the
lookup finds a row exactly if the insert is turned down.
-/

namespace KeyedTables

/-!
# Keys of rows and writes
-/

theorem TableSchema.keyOf_of_set {s : TableSchema} {cells : Cells}
    (hfit : FitColumns s.columns cells)
    (h : ∀ (i : Nat) (c : Column), s.columns[i]? = some c → c.isKey = true →
      ∃ v, cells[i]?.join = some v) :
    s.KeyOf cells (s.keyOf cells) := by
  apply Key.keyOf_of_firstUnset? hfit
  rw [firstUnset?_eq_none_iff]
  intro i c hc hkey hcell
  obtain ⟨v, hv⟩ := h i c hc hkey
  rw [hcell] at hv
  contradiction

namespace Row

variable {q : Row} {s : TableSchema} {c : Column}

/--
The row has the fields of the key's columns and no others, with values that can be converted to
them and are not missing.
-/
structure GivesKey (q : Row) (s : TableSchema) : Prop where
  schema : ∃ fields, q.schema? = some fields
    ∧ ∀ name, name ∈ fields.names ↔ ∃ c ∈ s.keyColumns, c.name = name
  converts : ∀ c ∈ s.keyColumns, ∃ v, q.fieldValue c.name = .ok v ∧ v ≠ .null ∧ v.ConvertsTo c

theorem GivesKey.isKeyOf (h : q.GivesKey s) : q.IsKeyOf q s :=
  ⟨h.schema, fun _ _ => rfl⟩

theorem GivesKey.exists_cell (h : q.GivesKey s) (hc : c ∈ s.keyColumns) :
    ∃ cell, q.cellIn? c = some cell := by
  obtain ⟨v, hv, hnull, hconverts⟩ := h.converts c hc
  have hcell := hconverts.toCell_eq ⟨"", .bare []⟩
  rw [cellIn?_eq hv]
  cases hvalue : v.cellIn? c with
  | some cell => exact ⟨cell, rfl⟩
  | none =>
    rw [hvalue] at hcell
    exact absurd (Value.eq_null_of_toCell hcell) hnull

theorem GivesKey.keyOf (h : q.GivesKey s) : s.KeyOf (q.cells s) (q.keyIn s) := by
  apply TableSchema.keyOf_of_set (fitColumns_cells q s)
  intro i c hc hkey
  rw [getElem?_cells hc]
  exact h.exists_cell (TableSchema.mem_keyColumns_iff.2 ⟨i, hc, hkey⟩)

end Row

/--
The write inserts a row with the key that the filter row gives. It has no field that belongs to no
column; what else it sets does not matter.
-/
structure Write.InsertsKey (w : Write) (t : TableHandle) (q : Row) : Prop where
  kind_eq : w.kind = .insert
  table_eq : w.table = t.name
  schema_eq : w.draft.schema = t.schema
  unresolved_eq : w.draft.unresolved = []
  get?_eq : ∀ c ∈ t.schema.keyColumns, w.draft.get? c.name = q.cellIn? c

namespace Write

variable {w : Write} {t : TableHandle} {q : Row}

theorem InsertsKey.keyOf (hw : w.InsertsKey t q) (hq : q.GivesKey t.schema) :
    t.schema.KeyOf w.draft.cells (q.keyIn t.schema) := by
  have hfit : FitColumns t.schema.columns w.draft.cells := hw.schema_eq ▸ w.draft.fitColumns
  have hcell : ∀ (i : Nat) (c : Column), t.schema.columns[i]? = some c → c.isKey = true →
      ∃ v, w.draft.cells[i]?.join = some v ∧ (q.cells t.schema)[i]?.join = some v := by
    intro i c hc hkey
    have hmem : c ∈ t.schema.keyColumns := TableSchema.mem_keyColumns_iff.2 ⟨i, hc, hkey⟩
    obtain ⟨v, hv⟩ := hq.exists_cell hmem
    have hget := hw.get?_eq c hmem
    unfold Draft.get? at hget
    rw [hw.schema_eq, TableSchema.indexOf?_eq_some_iff.2 ⟨c, hc, rfl⟩] at hget
    exact ⟨v, hget.trans hv, (Row.getElem?_cells hc).trans hv⟩
  have hkey : t.schema.KeyOf w.draft.cells (t.schema.keyOf w.draft.cells) :=
    TableSchema.keyOf_of_set hfit fun i c hc hkey =>
      (hcell i c hc hkey).imp fun _ h => h.1
  have heq : t.schema.keyOf w.draft.cells = q.keyIn t.schema := by
    rw [← List.forall₂_eq_eq_eq, hkey.forall₂_iff hq.keyOf hfit.length_eq
      (Row.fitColumns_cells q t.schema).length_eq]
    intro i c hc hiskey
    obtain ⟨v, hv, hqv⟩ := hcell i c hc hiskey
    exact ⟨v, v, hv, hqv, rfl⟩
  rwa [heq] at hkey

end Write

namespace Store

variable {s : Store} {t : TableHandle} {rows : Rows} {w : Write} {key : List Cell}

/--
The store turns the write down because the row is present already.
-/
def RejectsAsPresent (s : Store) (w : Write) : Prop :=
  ∃ status, s.apply w = .error status ∧ status.code = .alreadyPresent

theorem applyToRows_insert_alreadyPresent_iff (schema : TableSchema) (rows : Rows) (x : List UInt8)
    (cells : Cells) :
    (∃ status, applyToRows schema rows .insert x cells = .error status
      ∧ status.code = .alreadyPresent) ↔ ∃ old, rows.find? x = some old := by
  unfold applyToRows
  cases hfind : rows.find? x with
  | some old => simp
  | none =>
    simp only [insertRow]
    cases missingColumn? schema.columns cells <;> simp [invalid]

/--
An insert is turned down as present exactly if the table has a row of the same key.
-/
theorem rejectsAsPresent_iff (hs : s.Sound) (hfind : s.find? t.name = some ⟨t, rows⟩)
    (hkind : w.kind = .insert) (htable : w.table = t.name) (hunresolved : w.draft.unresolved = [])
    (hkey : t.schema.KeyOf w.draft.cells key) :
    s.RejectsAsPresent w ↔ ∃ cells ∈ rows.toList, t.schema.keyOf cells = key := by
  have happly : s.RejectsAsPresent w ↔ ∃ old, rows.find? (Key.encodeKey key) = some old := by
    rw [← applyToRows_insert_alreadyPresent_iff t.schema rows _ w.draft.cells]
    unfold RejectsAsPresent apply lookup
    rw [htable, hfind, hunresolved]
    dsimp only
    rw [Key.encode_eq hkey, hkind]
    dsimp only
    cases applyToRows t.schema rows .insert (Key.encodeKey key) w.draft.cells <;> simp
  rw [happly, ← rowOf?_eq hs hfind hkey.fitsKey, ← Option.isSome_iff_exists]
  unfold rowOf? Store.rows lookup
  rw [hfind]
  dsimp only
  simp [List.find?_isSome]

end Store

namespace Lookup

variable {store : Store} {t : TableHandle} {l : Lookup} {connection : Connection} {q : Row}

/--
The lookup for a key returns something exactly if no cell of the key is NaN and the table has a row
whose key differs at most in the signs of zeros.
-/
theorem run_of_givesKey (hstore : store.Sound) (ht : store.openTable t.name = .ok t)
    (hsupported : ∀ c ∈ t.schema.columns, c.type.IsSupported)
    (hknown : l.schemas.UsedFor store) (hconnection : connection.outage = {})
    (hq : q.GivesKey t.schema) :
    ∃ rows out, store.find? t.name = some ⟨t, rows⟩
      ∧ (l.run [q] t store connection).1 = .ok out
      ∧ (out ≠ [] ↔ (∀ u ∈ q.keyIn t.schema, u.isNaN = false)
          ∧ ∃ cells ∈ rows.toList,
            Key.EqualUpToZeros (q.keyIn t.schema) (t.schema.keyOf cells)) := by
  obtain ⟨fields, hfields, -⟩ := hq.schema
  obtain ⟨rows, out, hfind, hrun, hshows⟩ := run_shows hstore ht hsupported hknown hconnection
    hfields (hq.isKeyOf.offers hfields hq.keyOf)
  have hfound : ∀ cells ∈ rows.toList, Row.found [q] t.schema fields.names cells = true ↔
      (∀ u ∈ q.keyIn t.schema, u.isNaN = false)
        ∧ Key.EqualUpToZeros (q.keyIn t.schema) (t.schema.keyOf cells) := by
    intro cells hcells
    obtain ⟨x, hfiles⟩ := (hstore t.name _ hfind).files_of_mem hcells
    rw [hq.isKeyOf.found_iff_forall₂ hfields hfiles.fitColumns hfiles.keyOf hq.keyOf,
      Key.forall₂_equals_iff hq.keyOf.fitsKey hfiles.keyOf.fitsKey]
  refine ⟨rows, out, hfind, hrun, ?_⟩
  rw [← List.length_pos_iff, ← hshows.length_eq, List.length_filter_pos_iff]
  constructor
  . rintro ⟨cells, hcells, hmeets⟩
    obtain ⟨hnumbers, hequal⟩ := (hfound cells hcells).1 hmeets
    exact ⟨hnumbers, cells, hcells, hequal⟩
  . rintro ⟨hnumbers, cells, hcells, hequal⟩
    exact ⟨cells, hcells, (hfound cells hcells).2 ⟨hnumbers, hequal⟩⟩

end Lookup

namespace Output

variable {s : Service} {o : Output} {t : TableHandle} {q : Row} {w : Write}

/--
The lookup for a key returns something exactly if no cell of the key is NaN and the table has a row
whose key differs at most in the signs of zeros. The insert is turned down as present exactly if the
table has a row of the very key. So the two agree on every key without NaN and without floating
point zeros. In general they agree exactly if the insert is not turned down for a key with NaN, and
is turned down for a key without NaN whenever a row differs at most in the signs of zeros.
-/
theorem existing_iff_rejectsAsPresent (hstore : s.store.Reachable)
    (hconnection : s.connection.outage = {}) (hknown : o.lookup.schemas.UsedFor s.store)
    (ht : s.store.openTable o.settings.tableName = .ok t)
    (hsupported : ∀ c ∈ t.schema.columns, c.type.IsSupported) (hq : q.GivesKey t.schema)
    (hw : w.InsertsKey t q) :
    ∃ stored out, s.store.rows t.name = .ok (t.schema, stored)
      ∧ (o.existing [q] s).1 = .ok out
      ∧ (out ≠ [] ↔ (∀ u ∈ q.keyIn t.schema, u.isNaN = false)
          ∧ ∃ cells ∈ stored, Key.EqualUpToZeros (q.keyIn t.schema) (t.schema.keyOf cells))
      ∧ (s.store.RejectsAsPresent w ↔ ∃ cells ∈ stored, t.schema.keyOf cells = q.keyIn t.schema)
      ∧ ((∀ u ∈ q.keyIn t.schema, u.isNaN = false ∧ u.isZero = false) →
          (out ≠ [] ↔ s.store.RejectsAsPresent w))
      ∧ ((out ≠ [] ↔ s.store.RejectsAsPresent w) ↔
          (s.store.RejectsAsPresent w → ∀ u ∈ q.keyIn t.schema, u.isNaN = false)
          ∧ ((∀ u ∈ q.keyIn t.schema, u.isNaN = false) → ∀ cells ∈ stored,
              Key.EqualUpToZeros (q.keyIn t.schema) (t.schema.keyOf cells) →
              s.store.RejectsAsPresent w)) := by
  have hname : t.name = o.settings.tableName := by
    obtain ⟨rows, hfind⟩ := Store.find?_of_openTable ht
    exact Store.name_of_find? hfind
  obtain ⟨rows, out, hfind, hrun, hlookup⟩ := Lookup.run_of_givesKey hstore.sound
    (hname ▸ ht) hsupported hknown hconnection hq
  have hinsert := Store.rejectsAsPresent_iff hstore.sound hfind hw.kind_eq hw.table_eq
    hw.unresolved_eq (hw.keyOf hq)
  -- a row of the very key is one that differs at most in the signs of zeros
  have hequal : s.store.RejectsAsPresent w →
      ∃ cells ∈ rows.toList, Key.EqualUpToZeros (q.keyIn t.schema) (t.schema.keyOf cells) := by
    rw [hinsert]
    rintro ⟨cells, hcells, hkey⟩
    refine ⟨cells, hcells, ?_⟩
    rw [hkey]
    exact Key.equalUpToZeros_refl _
  refine ⟨rows.toList, out, by simp [Store.rows, Store.lookup, hfind],
    by rw [existing_eq hconnection ht, hrun], hlookup, hinsert, ?_, ?_⟩
  . intro hplain
    rw [hlookup]
    constructor
    . rintro ⟨-, cells, hcells, hkey⟩
      rw [Key.equalUpToZeros_iff fun u hu => (hplain u hu).2] at hkey
      exact hinsert.2 ⟨cells, hcells, hkey.symm⟩
    . intro hrejects
      exact ⟨fun u hu => (hplain u hu).1, hequal hrejects⟩
  . rw [hlookup]
    constructor
    . intro hagree
      refine ⟨fun hrejects => (hagree.2 hrejects).1, ?_⟩
      intro hnumbers cells hcells hkey
      exact hagree.1 ⟨hnumbers, cells, hcells, hkey⟩
    . rintro ⟨hnumbers, hrejects⟩
      constructor
      . rintro ⟨h, cells, hcells, hkey⟩
        exact hrejects h cells hcells hkey
      . intro h
        exact ⟨hnumbers h, hequal h⟩

/-!
# Readings
-/

/--
The schema of readings, which are told apart by their values.
-/
def readings : TableSchema where
  columns := [.key "value" .double]
  noProblem := by decide

def readingsTable : TableHandle := ⟨Store.tableId 1, "readings", readings⟩

def readingWrite (x : Binary64) : Write :=
  readingsTable.filledWrite .insert [.set "value" (.double x)]

def readingRow (x : Binary64) : Row :=
  .named ⟨[.optional "value" .float64]⟩ [.float64 x]

def oneAndAHalf : Binary64 := ⟨0x3ff8000000000000⟩

def negativeZero : Binary64 := ⟨0x8000000000000000⟩

def quietNaN : Binary64 := ⟨0x7ff8000000000000⟩

def threeReadings : List Call :=
  [.createTable "readings" readings, .apply (readingWrite oneAndAHalf), .apply (readingWrite .zero),
    .apply (readingWrite quietNaN)]

def readingsOutput : Output :=
  { settings := { connection := "master:7051", tableName := "readings" } }

def readingsService : Service :=
  { store := (runCalls Store.call .empty threeReadings).2 }

theorem readingsService_reachable : readingsService.store.Reachable := by
  apply Store.reachable_runCalls .empty
  exact ⟨trivial, .inl ⟨readingsTable, _, rfl, rfl⟩, .inl ⟨readingsTable, _, rfl, rfl⟩,
    .inl ⟨readingsTable, _, rfl, rfl⟩, trivial⟩

theorem readings_isSupported : ∀ c ∈ readings.columns, c.type.IsSupported := by
  simp [readings, Column.key, ColumnType.IsSupported]

theorem readingRow_givesKey (x : Binary64) : (readingRow x).GivesKey readings := by
  have hkeys : readings.keyColumns = [.key "value" .double] := rfl
  constructor
  case schema =>
    refine ⟨_, rfl, ?_⟩
    intro name
    simp [hkeys, RowSchema.names, Field.optional, Column.key, eq_comm]
  case converts =>
    rw [hkeys]
    simp only [List.forall_mem_singleton]
    exact ⟨.float64 x, rfl, by simp, some (.double x), fun _ => rfl⟩

theorem readingWrite_insertsKey (x : Binary64) :
    (readingWrite x).InsertsKey readingsTable (readingRow x) := by
  constructor
  case get?_eq =>
    have hkeys : readings.keyColumns = [.key "value" .double] := rfl
    intro c hc
    have hc : c ∈ readings.keyColumns := hc
    rw [hkeys, List.mem_singleton] at hc
    rw [hc]
    rfl
  all_goals rfl

/--
Both agree that there is a reading of 1.5.
-/
theorem existing_iff_rejectsAsPresent_readings :
    (readingsService.store.Reachable ∧ readingsOutput.lookup.schemas.UsedFor readingsService.store
      ∧ readingsService.store.openTable readingsOutput.settings.tableName = .ok readingsTable
      ∧ (∀ c ∈ readings.columns, c.type.IsSupported)
      ∧ (readingRow oneAndAHalf).GivesKey readings
      ∧ (readingWrite oneAndAHalf).InsertsKey readingsTable (readingRow oneAndAHalf))
      ∧ readingsService.store.RejectsAsPresent (readingWrite oneAndAHalf)
      ∧ ∃ out, (readingsOutput.existing [readingRow oneAndAHalf] readingsService).1 = .ok out
        ∧ out ≠ [] := by
  have hknown : readingsOutput.lookup.schemas.UsedFor readingsService.store := .new
  have hopen : readingsService.store.openTable readingsOutput.settings.tableName
      = .ok readingsTable := rfl
  have hq := readingRow_givesKey oneAndAHalf
  have hw := readingWrite_insertsKey oneAndAHalf
  refine ⟨⟨readingsService_reachable, hknown, hopen, readings_isSupported, hq, hw⟩, ?_⟩
  obtain ⟨stored, out, -, hout, -, -, hplain, -⟩ := existing_iff_rejectsAsPresent
    readingsService_reachable rfl hknown hopen readings_isSupported hq hw
  have hrejects : readingsService.store.RejectsAsPresent (readingWrite oneAndAHalf) :=
    ⟨_, rfl, rfl⟩
  have hkey : (readingRow oneAndAHalf).keyIn readings = [.double oneAndAHalf] := rfl
  refine ⟨hrejects, out, hout, (hplain ?_).2 hrejects⟩
  rw [show readingsTable.schema = readings from rfl, hkey]
  decide

/--
The lookup does not find the reading that is NaN, for which the insert is turned down. It finds the
zero also with the other sign, for which the insert is taken.
-/
theorem existing_differs_from_insert :
    (readingsService.store.Reachable
      ∧ ∀ x, (readingRow x).GivesKey readings
        ∧ (readingWrite x).InsertsKey readingsTable (readingRow x))
      ∧ ((readingsOutput.existing [readingRow quietNaN] readingsService).1 = .ok []
        ∧ readingsService.store.RejectsAsPresent (readingWrite quietNaN))
      ∧ (∃ row, (readingsOutput.existing [readingRow negativeZero] readingsService).1 = .ok [row])
      ∧ ∃ store, readingsService.store.apply (readingWrite negativeZero) = .ok store :=
  ⟨⟨readingsService_reachable, fun x => ⟨readingRow_givesKey x, readingWrite_insertsKey x⟩⟩,
    ⟨rfl, _, rfl, rfl⟩, ⟨_, rfl⟩, _, rfl⟩

end Output

end KeyedTables
