import KeyedTables.Proofs.Lookup.ByKey
import KeyedTables.Proofs.Transfer.PlannedFields

/-!
This module contains what a lookup asks for when its filter row is a planned row, or has the key
fields of one. The write of the planned row has in each column the last value that the row has for
it, and the lookup asks for the first one. They are the same if the row has but one field of the
name.
-/

namespace KeyedTables

/-!
# First and last values
-/

theorem Value.cellIn?_of_isNull {v : Value} (h : v.isNull = true) (c : Column) :
    v.cellIn? c = none := by
  cases v with
  | null => simp [cellIn?, toCell]
  | _ => contradiction

namespace Row

variable {r : Row} {schema : RowSchema} {c : Column} {name : String}

/--
The cell of the last value that the row has for a column and that is not missing.
-/
def lastCellIn? (r : Row) (c : Column) : Option Cell :=
  (Draft.lastValue? c.name r.entries).bind (·.cellIn? c)

/--
The row has at most one field of this name with a value.
-/
def NamesOnce (r : Row) (name : String) : Prop :=
  r.entries.countP (·.1.name == name) ≤ 1

instance : Decidable (r.NamesOnce name) :=
  inferInstanceAs (Decidable (_ ≤ _))

theorem cellIn?_eq_bind (hschema : r.schema? = some schema) :
    r.cellIn? c = (r.entries.find? (·.1.name == c.name)).bind (·.2.cellIn? c) := by
  unfold cellIn?
  rw [fieldValue_eq hschema]
  cases r.entries.find? (·.1.name == c.name) <;> rfl

theorem cellIn?_eq_lastCellIn? (hschema : r.schema? = some schema) (honce : r.NamesOnce c.name) :
    r.cellIn? c = r.lastCellIn? c := by
  have hlast : (r.entries.filter fun e => e.1.name == c.name && !e.2.isNull)
      = (r.entries.filter (·.1.name == c.name)).filter (!·.2.isNull) := by
    rw [List.filter_filter]
    apply List.filter_congr
    intro e _
    exact Bool.and_comm _ _
  unfold NamesOnce at honce
  rw [List.countP_eq_length_filter] at honce
  rw [cellIn?_eq_bind hschema, lastCellIn?, Draft.lastValue?, ← List.head?_filter, hlast]
  generalize r.entries.filter (·.1.name == c.name) = named at honce
  cases named with
  | nil => rfl
  | cons e rest =>
    have hrest : rest = [] := by simpa using honce
    rw [hrest]
    cases hnull : e.2.isNull with
    | true => simp [hnull, Value.cellIn?_of_isNull hnull]
    | false => simp [hnull]

theorem exists_schema_withoutMarker (hschema : r.schema? = some schema) :
    ∃ rest, r.withoutMarker.schema? = some rest :=
  exists_schema_withoutField hschema markerField

/--
The marker has a name of its own, so other fields are found without it as with it.
-/
theorem fieldValue_withoutMarker (hschema : r.schema? = some schema) (hname : name ≠ markerField) :
    r.withoutMarker.fieldValue name = r.fieldValue name :=
  fieldValue_withoutField hschema hname

/-!
# Planned rows as filter rows
-/

variable {t : TableHandle} {dropUnknown : Bool} {w : Write} {i : Nat}

/--
The write of a planned row sets a column to the cell of the last value that the row has for it.
-/
theorem cell_of_toWrite [Calendar] (hschema : r.schema? = some schema) (h : r.toWrite t dropUnknown = .ok w)
    (hc : t.schema.columns[i]? = some c) :
    w.draft.cells[i]?.join = r.withoutMarker.lastCellIn? c := by
  obtain ⟨-, -, hfill⟩ := exists_fill_of_toWrite hschema h
  have hcell := (Draft.fill_eq_ok hfill).2 i c hc
  rw [hcell, Draft.join_getElem?_empty, Draft.foldl_cellAfter_eq_lastValue, lastCellIn?]
  . cases Draft.lastValue? c.name r.withoutMarker.entries <;> rfl
  . intro e he hname
    exact Draft.fill_converts hfill he
      (TableSchema.column?_eq_some_iff.2 ⟨List.mem_of_getElem? hc, hname.symm⟩)

/--
A planned row that sets a column has a first value for it too, and this was converted.
-/
theorem offers_of_toWrite [Calendar] {cell : Cell} (hschema : r.schema? = some schema)
    (h : r.toWrite t dropUnknown = .ok w) (hc : t.schema.columns[i]? = some c)
    (hcell : w.draft.cells[i]?.join = some cell) : r.withoutMarker.Offers c := by
  obtain ⟨rest, hrest⟩ := exists_schema_withoutMarker hschema
  obtain ⟨-, -, hfill⟩ := exists_fill_of_toWrite hschema h
  rw [cell_of_toWrite hschema h hc, lastCellIn?] at hcell
  obtain ⟨v, hlast, -⟩ := Option.bind_eq_some_iff.1 hcell
  obtain ⟨last, hmem, hname, -⟩ := Draft.exists_of_lastValue? hlast
  obtain ⟨e, he⟩ : ∃ e, r.withoutMarker.entries.find? (·.1.name == c.name) = some e := by
    rw [← Option.isSome_iff_exists, List.find?_isSome]
    exact ⟨last, hmem, by simp [hname]⟩
  have hename : e.1.name = c.name := by simpa using List.find?_some he
  obtain ⟨converted, hconverted⟩ := Draft.fill_converts hfill (List.mem_of_find?_eq_some he)
    (TableSchema.column?_eq_some_iff.2 ⟨List.mem_of_getElem? hc, hename.symm⟩)
  have hconverts : e.2.ConvertsTo c := ⟨converted, Value.toCell_eq_ok hconverted⟩
  refine ⟨e.2, ?_, hconverts⟩
  rw [fieldValue_eq hrest, he]

end Row

namespace Lookup

variable {l : Lookup} {t : TableHandle} {filters : List Row} {names : List String}
variable {ms : List InList} {c : Column} {p q r : Row}

theorem conditions_eq_ok_iff :
    conditions t filters names = .ok ms
      ↔ List.Forall₂ (fun name m => condition t filters name = .ok m) names ms := by
  induction names generalizing ms with
  | nil => simp [conditions, eq_comm]
  | cons name names ih =>
    unfold conditions
    rw [List.forall₂_cons_left_iff]
    cases hm : condition t filters name with
    | error e => simp
    | ok m =>
      dsimp only
      cases hrest : conditions t filters names with
      | error e => simp [← ih, hrest]
      | ok rest =>
        simp only [← ih, hrest, Except.ok.injEq]
        simp [eq_comm (a := ms)]

theorem condition_singleton (hc : c ∈ t.schema.columns) (hoffers : q.Offers c) :
    condition t [q] c.name = .ok ⟨c, (q.cellIn? c).toList⟩ := by
  have hq : ∀ f ∈ [q], f.Offers c := by simpa using hoffers
  rw [condition_eq (TableSchema.column?_eq_some_iff.2 ⟨hc, rfl⟩) hq]
  rw [List.filterMap_cons, List.filterMap_nil]
  cases q.cellIn? c <;> rfl

theorem name_of_condition {name : String} {m : InList} (h : condition t filters name = .ok m) :
    m.column.name = name := by
  unfold condition at h
  split at h
  . contradiction
  . next c hc =>
    split at h
    . contradiction
    . next values _ =>
      unfold InList.make at h
      cases hbad : values.find? (fun v => !v.fits c.type) with
      | some bad => simp [hbad] at h
      | none =>
        have hm : (⟨c, values⟩ : InList) = m := by simpa [hbad] using h
        rw [← hm]
        exact (TableSchema.column?_eq_some_iff.1 hc).2

theorem mem_names_of_fieldValue {schema : RowSchema} {v : Value} {name : String}
    (hschema : q.schema? = some schema) (h : q.fieldValue name = .ok v) : name ∈ schema.names := by
  rw [Row.fieldValue_eq hschema] at h
  split at h
  . next e he =>
    have hmem := List.mem_of_find?_eq_some he
    unfold Row.entries at hmem
    rw [hschema] at hmem
    have hname : e.1.name = name := by simpa using List.find?_some he
    rw [← hname]
    exact List.mem_map_of_mem (List.of_mem_zip hmem).1
  . contradiction

/--
A scan for one filter row asks a column for the first value that the row has for it.
-/
theorem values_of_request {req : ScanRequest} (h : l.request [q] t = .ok req)
    (hc : c ∈ t.schema.columns) (hoffers : q.Offers c) :
    (∃ m ∈ req.conditions, m.column = c)
      ∧ ∀ m ∈ req.conditions, m.column = c → m.values = (q.cellIn? c).toList := by
  obtain ⟨schema, hschema, hconditions⟩ : ∃ schema, q.schema? = some schema
      ∧ List.Forall₂ (fun name m => condition t [q] name = .ok m) schema.names req.conditions := by
    unfold request at h
    cases hschema : q.schema? with
    | none => simp [hschema] at h
    | some schema =>
      refine ⟨schema, rfl, ?_⟩
      rw [← conditions_eq_ok_iff]
      cases hms : conditions t [q] schema.names with
      | error e => simp [hschema, hms] at h
      | ok ms =>
        have hreq : ScanRequest.withPageSize { table := t, conditions := ms } l.pageSize = req := by
          simpa [hschema, hms] using h
        rw [← hreq]
        rfl
  have hcondition := condition_singleton hc hoffers
  constructor
  . obtain ⟨v, hv, -⟩ := hoffers
    obtain ⟨m, hm, hmade⟩ :=
      exists_right_of_forall₂ hconditions (mem_names_of_fieldValue hschema hv)
    rw [hcondition, Except.ok.injEq] at hmade
    exact ⟨m, hm, by rw [← hmade]⟩
  . intro m hm hcolumn
    obtain ⟨name, -, hmade⟩ := exists_left_of_forall₂ hconditions hm
    rw [← name_of_condition hmade, hcolumn, hcondition, Except.ok.injEq] at hmade
    rw [← hmade]

/--
The conditions that a row sets for names: in the column of each name, its first value.
-/
def conditionsFor (t : TableHandle) (r : Row) (names : List String) : List InList :=
  names.filterMap fun name => (t.schema.column? name).map fun c => ⟨c, (r.cellIn? c).toList⟩

theorem conditions_singleton
    (h : ∀ name ∈ names, ∃ c, t.schema.column? name = some c ∧ q.Offers c) :
    conditions t [q] names = .ok (conditionsFor t q names) := by
  induction names with
  | nil => rfl
  | cons name names ih =>
    rw [List.forall_mem_cons] at h
    obtain ⟨⟨c, hc, hoffers⟩, hrest⟩ := h
    obtain ⟨hmem, rfl⟩ := TableSchema.column?_eq_some_iff.1 hc
    have hfor : conditionsFor t q (c.name :: names)
        = ⟨c, (q.cellIn? c).toList⟩ :: conditionsFor t q names := by
      simp [conditionsFor, hc]
    unfold conditions
    rw [condition_singleton hmem hoffers, ih hrest, hfor]

/-!
# Lookups for what is written
-/

/--
The condition asks its column for nothing but the cell that is there.
-/
def AsksForCell (s : TableSchema) (cells : Cells) (m : InList) : Prop :=
  ∃ (i : Nat) (cell : Cell), s.columns[i]? = some m.column ∧ cells[i]?.join = some cell
    ∧ m.values = [cell]

/--
A row with the key fields of a planned row asks for the first values of these.
-/
theorem request_of_key {fields : RowSchema} (hfields : q.schema? = some fields)
    (hq : q.IsKeyOf p t.schema) (hoffers : ∀ c ∈ t.schema.keyColumns, p.Offers c) (l : Lookup) :
    l.request [q] t
      = .ok (ScanRequest.withPageSize
          { table := t, conditions := conditionsFor t p fields.names } l.pageSize) := by
  have hkey : ∀ name ∈ fields.names, ∃ c ∈ t.schema.keyColumns,
      t.schema.column? name = some c ∧ q.Offers c := by
    intro name hname
    obtain ⟨c, hc, hcname⟩ := (hq.mem_names_iff hfields).1 hname
    obtain ⟨v, hv, hconverts⟩ := hoffers c hc
    have hmem : c ∈ t.schema.columns := List.mem_of_mem_filter hc
    exact ⟨c, hc, TableSchema.column?_eq_some_iff.2 ⟨hmem, hcname⟩, v,
      by rw [hq.fieldValue_eq c hc, hv], hconverts⟩
  have hsame : conditionsFor t q fields.names = conditionsFor t p fields.names := by
    unfold conditionsFor
    apply List.filterMap_congr
    intro name hname
    obtain ⟨c, hc, hcolumn, -⟩ := hkey name hname
    rw [hcolumn, Option.map_some, Option.map_some, hq.cellIn?_eq hc]
  have hconditions : conditions t [q] fields.names = .ok (conditionsFor t q fields.names) := by
    apply conditions_singleton
    intro name hname
    obtain ⟨c, -, hcolumn, hqc⟩ := hkey name hname
    exact ⟨c, hcolumn, hqc⟩
  simp [request, hfields, hconditions, hsame]

/--
The conditions for the key of a row ask for these cells exactly if its first values in the columns
of the key are these.
-/
theorem asksForCell_iff {fields : RowSchema} {cells : Cells} {key : List Cell}
    (hfields : q.schema? = some fields) (hq : q.IsKeyOf p t.schema)
    (hfit : FitColumns t.schema.columns cells) (hkey : t.schema.KeyOf cells key) :
    (∀ m ∈ conditionsFor t p fields.names, AsksForCell t.schema cells m)
      ↔ ∀ (i : Nat) (c : Column), t.schema.columns[i]? = some c → c.isKey = true →
        p.cellIn? c = cells[i]?.join := by
  unfold conditionsFor
  constructor
  . intro h i c hc hisKey
    have hname : c.name ∈ fields.names :=
      (hq.mem_names_iff hfields).2 ⟨c, TableSchema.mem_keyColumns_iff.2 ⟨i, hc, hisKey⟩, rfl⟩
    have hcolumn : t.schema.column? c.name = some c :=
      TableSchema.column?_eq_some_iff.2 ⟨List.mem_of_getElem? hc, rfl⟩
    obtain ⟨j, cell, hj, hcell, hvalues⟩ :=
      h ⟨c, (p.cellIn? c).toList⟩ (List.mem_filterMap.2 ⟨c.name, hname, by simp [hcolumn]⟩)
    rw [TableSchema.eq_of_name_eq hj hc rfl] at hcell
    rw [hcell]
    exact Option.toList_eq_singleton_iff.1 hvalues
  . intro h m hm
    obtain ⟨name, hname, hmade⟩ := List.mem_filterMap.1 hm
    obtain ⟨c, hc, rfl⟩ := (hq.mem_names_iff hfields).1 hname
    obtain ⟨i, hi, hisKey⟩ := TableSchema.mem_keyColumns_iff.1 hc
    have hcolumn : t.schema.column? c.name = some c :=
      TableSchema.column?_eq_some_iff.2 ⟨List.mem_of_getElem? hi, rfl⟩
    have hm : ⟨c, (p.cellIn? c).toList⟩ = m := by simpa [hcolumn] using hmade
    obtain ⟨cell, hcell, -⟩ := hkey.exists_cell hfit hi hisKey
    rw [← hm]
    refine ⟨i, cell, hi, hcell, ?_⟩
    rw [h i c hi hisKey, hcell]
    rfl

/--
A column that the write of a planned row sets has the last value that the row has for it. A lookup
with the row itself asks the column for the first one, and so does a lookup with the key fields of
the row. It asks for what is written exactly if these have the same cell, as they do if the row has
but one field of the name.
-/
theorem asks_for_first_values [Calendar] {schema : RowSchema} {dropUnknown : Bool} {w : Write}
    (hschema : r.schema? = some schema) (h : r.toWrite t dropUnknown = .ok w) :
    (∀ (i : Nat) (c : Column) (cell : Cell), t.schema.columns[i]? = some c →
      w.draft.cells[i]?.join = some cell →
        r.withoutMarker.lastCellIn? c = some cell
        ∧ (r.withoutMarker.NamesOnce c.name → r.withoutMarker.cellIn? c = some cell)
        ∧ ∀ q, q = r.withoutMarker ∨ q = r ∧ c.name ≠ Row.markerField →
            condition t [q] c.name = .ok ⟨c, (r.withoutMarker.cellIn? c).toList⟩
            ∧ ∀ (l : Lookup) (req : ScanRequest), l.request [q] t = .ok req →
                (∃ m ∈ req.conditions, m.column = c)
                ∧ ∀ m ∈ req.conditions, m.column = c →
                    m.values = (r.withoutMarker.cellIn? c).toList)
    ∧ ∀ (q : Row) (fields : RowSchema) (key : List Cell), q.schema? = some fields →
        q.IsKeyOf r.withoutMarker t.schema → t.schema.KeyOf w.draft.cells key →
          (∀ l : Lookup, l.request [q] t
            = .ok (ScanRequest.withPageSize
                { table := t, conditions := conditionsFor t r.withoutMarker fields.names }
                l.pageSize))
          ∧ ((∀ m ∈ conditionsFor t r.withoutMarker fields.names,
                AsksForCell t.schema w.draft.cells m)
              ↔ ∀ (i : Nat) (c : Column), t.schema.columns[i]? = some c → c.isKey = true →
                  r.withoutMarker.cellIn? c = w.draft.cells[i]?.join) := by
  obtain ⟨rest, hrest⟩ := Row.exists_schema_withoutMarker hschema
  refine ⟨?_, ?_⟩
  . intro i c cell hc hcell
    have hmem := List.mem_of_getElem? hc
    have hlast := Row.cell_of_toWrite hschema h hc
    rw [hcell] at hlast
    obtain ⟨v, hv, hconverts⟩ := Row.offers_of_toWrite hschema h hc hcell
    refine ⟨hlast.symm, ?_, ?_⟩
    . intro honce
      rw [Row.cellIn?_eq_lastCellIn? hrest honce, ← hlast]
    . intro q hq
      have hvalue : q.fieldValue c.name = r.withoutMarker.fieldValue c.name := by
        rcases hq with rfl | ⟨rfl, hname⟩
        . rfl
        . exact (Row.fieldValue_withoutMarker hschema hname).symm
      have hoffers : q.Offers c := ⟨v, by rw [hvalue, hv], hconverts⟩
      have hcellIn : q.cellIn? c = r.withoutMarker.cellIn? c := by
        unfold Row.cellIn?
        rw [hvalue]
      rw [← hcellIn]
      refine ⟨condition_singleton hmem hoffers, ?_⟩
      intro l req hreq
      exact values_of_request hreq hmem hoffers
  . intro q fields key hfields hq hkey
    obtain ⟨-, -, hfill⟩ := Row.exists_fill_of_toWrite hschema h
    have hdraft : w.draft.schema = t.schema := (Draft.fill_eq_ok hfill).1
    have hfit : FitColumns t.schema.columns w.draft.cells := by
      rw [← hdraft]
      exact w.draft.fitColumns
    refine ⟨request_of_key hfields hq ?_, asksForCell_iff hfields hq hfit hkey⟩
    intro c hc
    obtain ⟨i, hi, hisKey⟩ := TableSchema.mem_keyColumns_iff.1 hc
    obtain ⟨cell, hcell, -⟩ := hkey.exists_cell hfit hi hisKey
    exact Row.offers_of_toWrite hschema h hi hcell

def itemsTable : TableHandle :=
  ⟨"1", "items", .items⟩

/--
The number of an item, as a filter row.
-/
def numberSeven : Row :=
  .ofFields [("id", .int64, .int64 7)]

theorem numberSeven_isKeyOf :
    numberSeven.IsKeyOf Row.pricedItem.withoutMarker itemsTable.schema where
  schema := by
    refine ⟨⟨[.optional "id" .int64]⟩, rfl, ?_⟩
    intro name
    change name ∈ ["id"] ↔ ∃ c ∈ [Column.key "id" .int64], c.name = name
    simp [Column.key, eq_comm]
  fieldValue_eq := by
    change ∀ c ∈ [Column.key "id" .int64], _
    rw [List.forall_mem_singleton]
    rfl

/--
An item is given two prices. It is written with the later one, and looked up by the first one. Its
number is the same.
-/
theorem asks_for_first_values_pricedItem :
    ∃ w, Row.pricedItem.toWrite itemsTable true = .ok w
      ∧ w.draft.cells = [some (.int64 7), some (.decimal 425), none]
      ∧ condition itemsTable [Row.pricedItem.withoutMarker] "price"
        = .ok ⟨.value "price" (.decimal 10 2), [.decimal 350]⟩
      ∧ condition itemsTable [Row.pricedItem] "id" = .ok ⟨.key "id" .int64, [.int64 7]⟩
      ∧ ∀ m ∈ conditionsFor itemsTable Row.pricedItem.withoutMarker ["id"],
          AsksForCell .items w.draft.cells m := by
  obtain ⟨w, hw⟩ : ∃ w, Row.pricedItem.toWrite itemsTable true = .ok w := ⟨_, rfl⟩
  have hcells : w.draft.cells = [some (.int64 7), some (.decimal 425), none] := by
    have hmade : (Row.pricedItem.toWrite itemsTable true).map (·.draft.cells)
        = .ok [some (.int64 7), some (.decimal 425), none] := by rfl
    rw [hw] at hmade
    exact Except.ok.inj hmade
  have hkey : itemsTable.schema.KeyOf w.draft.cells [.int64 7] := by
    rw [hcells]
    exact ⟨rfl, .cons rfl .nil⟩
  obtain ⟨schema, hschema⟩ : ∃ schema, Row.pricedItem.schema? = some schema := ⟨_, rfl⟩
  obtain ⟨hset, hkeys⟩ := asks_for_first_values hschema hw
  obtain ⟨-, -, hprice⟩ := hset 1 (.value "price" (.decimal 10 2)) (.decimal 425) rfl
    (by rw [hcells]; rfl)
  obtain ⟨-, honce, hid⟩ := hset 0 (.key "id" .int64) (.int64 7) rfl (by rw [hcells]; rfl)
  have hnumber := honce (by decide)
  obtain ⟨-, hasks⟩ := hkeys numberSeven _ _ rfl numberSeven_isKeyOf hkey
  have hfirst : Row.pricedItem.withoutMarker.cellIn? (.value "price" (.decimal 10 2))
      = some (.decimal 350) := by rfl
  rw [hfirst] at hprice
  refine ⟨w, hw, hcells, (hprice _ (.inl rfl)).1, ?_, hasks.2 ?_⟩
  . have hcondition := (hid _ (.inr ⟨rfl, by decide⟩)).1
    rwa [hnumber] at hcondition
  . intro i c hc hisKey
    match i with
    | 0 =>
      cases hc
      rw [hcells]
      exact hnumber
    | 1 | 2 =>
      cases hc
      contradiction
    | i + 3 => contradiction

/--
An item is given two numbers.
-/
def twiceNumbered : Row :=
  .ofFields
    [(Row.markerField, .string, .string "UPSERT"),
      ("id", .int64, .int64 1),
      ("id", .int64, .int64 2)]

/--
It is written under the second number and looked up by the first one.
-/
theorem asks_for_other_key :
    ∃ w, twiceNumbered.toWrite itemsTable false = .ok w
      ∧ itemsTable.schema.KeyOf w.draft.cells [.int64 2]
      ∧ condition itemsTable [twiceNumbered.withoutMarker] "id"
        = .ok ⟨.key "id" .int64, [.int64 1]⟩
      ∧ (({} : Lookup).request [twiceNumbered.withoutMarker] itemsTable).map
          (·.conditions.map (·.values))
        = .ok [[.int64 1], [.int64 1]] := by
  obtain ⟨w, hw⟩ : ∃ w, twiceNumbered.toWrite itemsTable false = .ok w := ⟨_, rfl⟩
  have hmade : (twiceNumbered.toWrite itemsTable false).map (·.draft.cells)
      = .ok [some (.int64 2), none, none] := by rfl
  rw [hw] at hmade
  have hcells : w.draft.cells = [some (.int64 2), none, none] := Except.ok.inj hmade
  refine ⟨w, hw, ?_, rfl, rfl⟩
  rw [hcells]
  exact ⟨rfl, .cons rfl .nil⟩

end Lookup

end KeyedTables
