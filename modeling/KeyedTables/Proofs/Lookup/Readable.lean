import KeyedTables.Proofs.Lookup.Found
import KeyedTables.Proofs.Store.Paging

/-!
This module contains what callers can rely on after any calls to a store, whatever of them failed:
every row is as the columns of its table want it, and if these columns all have field types, no scan
returns a row that cannot be read.
-/

namespace KeyedTables

namespace TableSchema

/--
A row and the key that it is filed under, cell by cell as the columns of the table want them.
-/
structure Intact (s : TableSchema) (x : List UInt8) (cells : Cells) : Prop where
  length_eq : cells.length = s.columns.length
  fits : ∀ (i : Nat) (c : Column) (v : Cell), s.columns[i]? = some c → cells[i]? = some (some v) →
    v.fits c.type = true
  present : ∀ (i : Nat) (c : Column), s.columns[i]? = some c → c.isNullable = false →
    ∃ v, cells[i]? = some (some v)
  key_present : ∀ (i : Nat) (c : Column), s.columns[i]? = some c → c.isKey = true →
    ∃ v, cells[i]? = some (some v)
  encode_eq : Key.encode s cells = .ok x

theorem Files.intact {s : TableSchema} {x : List UInt8} {cells : Cells} (h : s.Files x cells) :
    s.Intact x cells := by
  obtain ⟨hlength, hfits⟩ := fitColumns_iff.1 h.fitColumns
  have hpresent : ∀ (i : Nat) (c : Column), s.columns[i]? = some c → c.isNullable = false →
      ∃ v, cells[i]? = some (some v) := by
    intro i c hc hnullable
    have hunset := firstUnset?_eq_none_iff.1 h.complete i c hc (by simp [hnullable])
    obtain ⟨hi, -⟩ := List.getElem?_eq_some_iff.1 hc
    have hcell := List.getElem?_eq_getElem (hlength.symm ▸ hi)
    rw [hcell] at hunset ⊢
    cases hv : cells[i] with
    | none => exact absurd (by rw [hv]) hunset
    | some v => exact ⟨v, rfl⟩
  constructor
  case length_eq => exact hlength
  case fits =>
    intro i c v hc hv
    exact hfits i c v hc (by rw [hv]; rfl)
  case present => exact hpresent
  case key_present =>
    intro i c hc hkey
    refine hpresent i c hc ?_
    unfold Column.isKey at hkey
    unfold Column.isNullable
    split at hkey <;> simp_all
  case encode_eq => exact h.encode_eq

end TableSchema

namespace Store

variable {s : Store} {t : StoredTable}

/-!
# Scans
-/

theorem openCursor_eq_ok {r : ScanRequest} {c : Cursor} (hfind : s.find? r.table.name = some t)
    (h : s.openCursor r = .ok c) :
    c.schema = t.handle.schema ∧ c.allowance? = none
      ∧ ∀ cells ∈ c.remaining, cells ∈ t.rows.toList := by
  unfold openCursor scan lookup at h
  rw [hfind] at h
  dsimp only at h
  split at h
  . contradiction
  . next hscan =>
    split at hscan
    . contradiction
    . next qs hqs =>
      simp only [Except.ok.injEq, Prod.mk.injEq] at hscan h
      rw [← h]
      refine ⟨hscan.1.symm, rfl, ?_⟩
      intro cells hcells
      dsimp only at hcells
      rw [← hscan.2] at hcells
      exact List.mem_of_mem_filter hcells

theorem openCursor_of_columns {r : ScanRequest} (hfind : s.find? r.table.name = some t)
    (h : ∀ p ∈ r.conditions, p.column ∈ t.handle.schema.columns) :
    ∃ c, s.openCursor r = .ok c := by
  obtain ⟨qs, hqs⟩ := exists_resolveConditions fun p hp => TableSchema.hasColumn_of_mem (h p hp)
  exact ⟨_, by simp [openCursor, scan, lookup, hfind, hqs]; rfl⟩

end Store

namespace StoredTable.Sound

variable {t : StoredTable} {cells : Cells}

/--
The rows of a sound table are read, whatever schema the generic rows are to have.
-/
theorem toRow_ok (h : t.Sound) (hsupported : ∀ c ∈ t.handle.schema.columns, c.type.IsSupported)
    (schema : RowSchema) (hcells : cells ∈ t.rows.toList) :
    ∃ row, Record.toRow ⟨t.handle.schema, cells⟩ schema = .ok row := by
  obtain ⟨x, hfiles⟩ := h.files_of_mem hcells
  obtain ⟨vs, hvs, -⟩ := Record.valuesOf_shows hfiles.fitColumns hsupported
  exact ⟨.named schema vs, by simp [Record.toRow, hvs]⟩

end StoredTable.Sound

namespace Store

variable {calls : List Call}

/--
Whatever calls were made, and whichever of them failed, all rows of all tables are intact. Of a
table whose columns have field types every scan can be opened and read to its end.
-/
theorem readable_of_calls (h : Store.empty.AdmitsAll calls) {s : Store}
    (hs : (runCalls Store.call .empty calls).2 = s) :
    ∀ t ∈ s.tables,
      (∀ e ∈ t.rows.entries, t.handle.schema.Intact e.1 e.2)
      ∧ ((∀ c ∈ t.handle.schema.columns, c.type.IsSupported) →
        ∀ r : ScanRequest, r.table.name = t.handle.name →
          ((∀ p ∈ r.conditions, p.column ∈ t.handle.schema.columns) → ∃ c, s.openCursor r = .ok c)
          ∧ ∀ c, s.openCursor r = .ok c → ∀ schema : RowSchema,
            (∃ pages last, c.pages = .ok (pages, last)
              ∧ pages.flatten = c.remaining.map (fun cells => ⟨t.handle.schema, cells⟩)
              ∧ ∀ record ∈ pages.flatten, ∃ row, record.toRow schema = .ok row)
            ∧ ∃ out, Lookup.readRows schema c.remaining.length c = .ok out
              ∧ List.Forall₂ (fun cells row =>
                  Record.toRow ⟨t.handle.schema, cells⟩ schema = .ok row) c.remaining out) := by
  have hreachable : s.Reachable := by
    rw [← hs]
    exact reachable_runCalls .empty h
  intro t ht
  have hfind := hreachable.find?_of_mem ht
  have hsound := hreachable.sound _ t hfind
  refine ⟨fun e he => (hsound e he).intact, ?_⟩
  intro hsupported r hr
  rw [← hr] at hfind
  refine ⟨openCursor_of_columns hfind, ?_⟩
  intro c hc schema
  obtain ⟨hschema, hopen, hremaining⟩ := openCursor_eq_ok hfind hc
  have hrows : ∀ cells ∈ c.remaining,
      ∃ row, Record.toRow ⟨t.handle.schema, cells⟩ schema = .ok row :=
    fun cells hcells => hsound.toRow_ok hsupported schema (hremaining cells hcells)
  refine ⟨?_, ?_⟩
  . obtain ⟨pages, last, hpages, hall⟩ := c.pages_eq hopen
    rw [hschema] at hall
    refine ⟨pages, last, hpages, hall, ?_⟩
    intro record hrecord
    rw [hall, List.mem_map] at hrecord
    obtain ⟨cells, hcells, rfl⟩ := hrecord
    exact hrows cells hcells
  . apply Lookup.readRows_forall₂ (Nat.le_refl _) hopen
    intro cells hcells
    obtain ⟨row, hrow⟩ := hrows cells hcells
    rw [hschema]
    exact ⟨row, hrow, hrow⟩

/--
Calls of which some fail, and a draft that refuses a cell on the way.
-/
def unsteadyPlaces : List Call :=
  [.createTable "places" places,
    .createTable "places" places,
    .apply (placeWrite .insert "a" 1),
    .apply (placeWrite .insert "a" 1),
    .apply (placesTable.filledWrite .update
      [.set "region" (.string "a"), .set "id" (.string "1"), .set "id" (.int32 1),
        .set "name" (.string "x")]),
    .apply (placeWrite .upsert "b" 2),
    .apply (placeWrite .delete "b" 2)]

/--
The fields of places with their names.
-/
def namedPlaceFields : RowSchema :=
  ⟨Lookup.placeFields.fields ++ [.optional "name" .string]⟩

/--
The one place that is left can be read in full.
-/
theorem readable_of_unsteadyPlaces :
    Store.empty.AdmitsAll unsteadyPlaces
      ∧ ∃ c out, (runCalls Store.call .empty unsteadyPlaces).2.openCursor { table := placesTable }
          = .ok c
        ∧ c.remaining = [[some (.string "a"), some (.int32 1), some (.string "x")]]
        ∧ Lookup.readRows namedPlaceFields c.remaining.length c = .ok out
        ∧ out = [.named namedPlaceFields [.string "a", .int32 1, .string "x"]] := by
  have hadmits : Store.empty.AdmitsAll unsteadyPlaces :=
    ⟨trivial, trivial, .inl ⟨placesTable, _, rfl, rfl⟩, .inl ⟨placesTable, _, rfl, rfl⟩,
      .inl ⟨placesTable, _, rfl, rfl⟩, .inl ⟨placesTable, _, rfl, rfl⟩,
      .inl ⟨placesTable, _, rfl, rfl⟩, trivial⟩
  have hread := readable_of_calls hadmits rfl _ (List.mem_singleton.2 rfl)
  obtain ⟨hopen, hrows⟩ := hread.2 Lookup.places_isSupported { table := placesTable } rfl
  obtain ⟨c, hc⟩ := hopen (by simp)
  obtain ⟨-, out, hout, hall⟩ := hrows c hc namedPlaceFields
  have hremaining : c.remaining = [[some (.string "a"), some (.int32 1), some (.string "x")]] := by
    rw [← Except.ok.inj hc]
    rfl
  refine ⟨hadmits, c, out, hc, hremaining, hout, ?_⟩
  rw [hremaining] at hall
  obtain ⟨row, rows, hrow, hnone, rfl⟩ := List.forall₂_cons_left_iff.1 hall
  rw [List.forall₂_nil_left_iff.1 hnone, ← Except.ok.inj hrow]

end Store

end KeyedTables
