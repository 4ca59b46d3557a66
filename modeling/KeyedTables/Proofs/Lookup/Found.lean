import KeyedTables.Proofs.Lookup.Matching
import KeyedTables.Proofs.Store.Pages
import KeyedTables.Proofs.Transfer.KnownSchemas

/-!
This module contains what lookups return: the rows of the table that are found under the filter
rows, each once and in the order of their keys, however many there are on a page. Since the filter
rows of different names need not be the same, these may be rows that no single filter row describes.
-/

namespace KeyedTables

theorem exists_right_of_forall₂ {R : α → β → Prop} {as : List α} {bs : List β}
    (h : List.Forall₂ R as bs) {a : α} (ha : a ∈ as) : ∃ b ∈ bs, R a b := by
  induction h with
  | nil => contradiction
  | @cons c b as bs hcb _ ih =>
    cases ha with
    | head => exact ⟨b, List.mem_cons_self, hcb⟩
    | tail _ ha =>
      obtain ⟨d, hd, had⟩ := ih ha
      exact ⟨d, List.mem_cons_of_mem b hd, had⟩

theorem exists_left_of_forall₂ {R : α → β → Prop} {as : List α} {bs : List β}
    (h : List.Forall₂ R as bs) {b : β} (hb : b ∈ bs) : ∃ a ∈ as, R a b :=
  exists_right_of_forall₂ h.flip hb

/-!
# Known row schemas
-/

namespace KnownSchemas

variable {s : Store} {k : KnownSchemas} {t u : TableHandle}

/--
Only the row schemas of tables of this store were asked for.
-/
inductive UsedFor (s : Store) : KnownSchemas → Prop where
  | new : UsedFor s {}
  | schemaOf {k : KnownSchemas} (h : k.UsedFor s) {t : TableHandle}
    (ht : s.openTable t.name = .ok t) : UsedFor s (k.schemaOf t).2

theorem UsedFor.congr {s' : Store} (h : k.UsedFor s)
    (htables : ∀ name, s'.openTable name = s.openTable name) : k.UsedFor s' := by
  induction h with
  | new => exact .new
  | schemaOf _ ht ih => exact ih.schemaOf ((htables _).trans ht)

theorem UsedFor.agreesOn (h : k.UsedFor s) (ht : s.openTable t.name = .ok t) : k.AgreesOn t := by
  induction h with
  | new => exact agreesOn_new t
  | @schemaOf k _ u hu ih =>
    apply ih.schemaOf
    intro hname
    rw [hname, ht, Except.ok.injEq] at hu
    rw [hu]

theorem UsedFor.schemaOf_eq (h : k.UsedFor s) (ht : s.openTable t.name = .ok t) :
    (k.schemaOf t).1 = t.schema.rowSchema :=
  (h.agreesOn ht).answer_eq

end KnownSchemas

namespace Lookup

variable {s : TableSchema} {schema : RowSchema}

/-!
# Reading
-/

theorem pageRows_forall₂ {shown : Cells → Row → Prop} {rows : List Cells}
    (h : ∀ cells ∈ rows, ∃ r, Record.toRow ⟨s, cells⟩ schema = .ok r ∧ shown cells r) :
    ∃ out, pageRows schema (rows.map fun cells => ⟨s, cells⟩) = .ok out
      ∧ List.Forall₂ shown rows out := by
  induction rows with
  | nil => exact ⟨[], rfl, .nil⟩
  | cons cells rows ih =>
    obtain ⟨r, hr, hshown⟩ := h cells List.mem_cons_self
    obtain ⟨out, hout, hall⟩ := ih fun c hc => h c (List.mem_cons_of_mem cells hc)
    exact ⟨r :: out, by simp [pageRows, hr, hout], .cons hshown hall⟩

/--
A cursor that nothing interrupts is read to its end, page by page.
-/
theorem readRows_forall₂ {shown : Cells → Row → Prop} {fuel : Nat} {c : Cursor}
    (hfuel : c.remaining.length ≤ fuel) (hopen : c.allowance? = none)
    (h : ∀ cells ∈ c.remaining,
      ∃ r, Record.toRow ⟨c.schema, cells⟩ schema = .ok r ∧ shown cells r) :
    ∃ out, readRows schema fuel c = .ok out ∧ List.Forall₂ shown c.remaining out := by
  induction fuel generalizing c with
  | zero =>
    have hnil : c.remaining = [] := by
      rw [← List.length_eq_zero_iff]
      omega
    rw [hnil]
    exact ⟨[], rfl, .nil⟩
  | succ fuel ih =>
    by_cases hmore : c.remaining = []
    . rw [hmore]
      exact ⟨[], by simp [readRows, Cursor.hasMore, hmore], .nil⟩
    . obtain ⟨page, hpage, hshown⟩ := pageRows_forall₂ fun cells hcells =>
        h cells (List.mem_of_mem_take hcells)
      have hlength : 0 < c.remaining.length := List.length_pos_iff.2 hmore
      have hpos := c.pageSize_pos
      -- each page takes a row or more, so the fuel suffices for the others
      obtain ⟨rest, hrest, hshowns⟩ := ih (c := { c with remaining := c.remaining.drop c.pageSize })
        (by rw [List.length_drop]; omega) hopen
        (fun cells hcells => h cells (List.mem_of_mem_drop hcells))
      refine ⟨page ++ rest, ?_, ?_⟩
      . have hhas : c.hasMore = true := by simp [Cursor.hasMore, hmore]
        unfold readRows
        rw [if_pos hhas, Cursor.next_eq hopen hmore]
        dsimp only
        rw [hpage]
        dsimp only
        rw [hrest]
      . rw [← List.take_append_drop c.pageSize c.remaining]
        exact List.rel_append (R := shown) hshown hshowns

theorem readRows_shows {fuel : Nat} {c : Cursor} (hfuel : c.remaining.length ≤ fuel)
    (hopen : c.allowance? = none) (hfit : ∀ cells ∈ c.remaining, FitColumns c.schema.columns cells)
    (hsupported : ∀ d ∈ c.schema.columns, d.type.IsSupported)
    (hschema : c.schema.rowSchema = .ok schema) :
    ∃ out, readRows schema fuel c = .ok out
      ∧ List.Forall₂ (fun cells (r : Row) => r.Shows c.schema cells) c.remaining out := by
  apply readRows_forall₂ hfuel hopen
  intro cells hcells
  exact Record.toRow_shows (hfit cells hcells) hsupported hschema

/-!
# The rows of a lookup
-/

variable {store : Store} {t : TableHandle} {l : Lookup} {first : Row} {rest : List Row}
variable {fields : RowSchema} {connection : Connection}

theorem request_eq {ps : List InList} (hfirst : first.schema? = some fields)
    (hps : conditions t (first :: rest) fields.names = .ok ps) :
    l.request (first :: rest) t
      = .ok (ScanRequest.withPageSize { table := t, conditions := ps } l.pageSize) := by
  unfold request
  simp only [hfirst, hps]

theorem openCursor_eq {r : ScanRequest} {s : TableSchema} {rows : List Cells}
    (hconnection : connection.outage = {}) (hscan : store.scan r = .ok (s, rows)) :
    connection.openCursor store r
      = (.ok ⟨s, rows, r.pageSize, r.pageSize_pos, none⟩,
          { connection with requests := connection.requests ++ [r] }) := by
  simp [Connection.openCursor, Store.openCursor, hscan, hconnection]

theorem run_eq {r : ScanRequest} {schema : RowSchema} {rows : List Cells}
    (hknown : l.schemas.UsedFor store) (ht : store.openTable t.name = .ok t)
    (hconnection : connection.outage = {}) (hrequest : l.request (first :: rest) t = .ok r)
    (hschema : t.schema.rowSchema = .ok schema) (hscan : store.scan r = .ok (t.schema, rows)) :
    (l.run (first :: rest) t store connection).1
      = readRows schema rows.length ⟨t.schema, rows, r.pageSize, r.pageSize_pos, none⟩ := by
  have hrecorded : (l.recordScan (first :: rest).length).schemas.schemaOf t
      = (.ok schema, (l.schemas.schemaOf t).2) := by
    rw [← hschema, ← hknown.schemaOf_eq ht]
    rfl
  have hrequested : (l.recordScan (first :: rest).length).request (first :: rest) t = .ok r :=
    hrequest
  unfold run
  rw [if_neg (by simp)]
  dsimp only
  rw [hrequested]
  dsimp only
  rw [hrecorded]
  dsimp only
  rw [openCursor_eq hconnection hscan]

theorem found_eq_false {s : TableSchema} {cells : Cells} {filters : List Row} {names : List String}
    {name : String} (hname : name ∈ names)
    (hnull : ∀ r ∈ filters, r.fieldValue name = .ok .null) :
    Row.found filters s names cells = false := by
  unfold Row.found
  rw [List.all_eq_false]
  refine ⟨name, hname, ?_⟩
  rw [Bool.not_eq_true, List.any_eq_false]
  intro r hr
  rw [Bool.not_eq_true]
  apply Row.agreesOn_eq_false
  intro c _ hc
  have hvalue : r.fieldValue c.name = .ok .null := by
    rw [hc]
    exact hnull r hr
  rw [Row.cellIn?_eq hvalue]
  rfl

theorem run_shows (hstore : store.Sound) (ht : store.openTable t.name = .ok t)
    (hsupported : ∀ c ∈ t.schema.columns, c.type.IsSupported)
    (hknown : l.schemas.UsedFor store) (hconnection : connection.outage = {})
    (hfirst : first.schema? = some fields)
    (hfields : ∀ name ∈ fields.names, ∃ c, t.schema.column? name = some c
      ∧ ∀ r ∈ first :: rest, r.Offers c) :
    ∃ rows out, store.find? t.name = some ⟨t, rows⟩
      ∧ (l.run (first :: rest) t store connection).1 = .ok out
      ∧ List.Forall₂ (fun cells (r : Row) => r.Shows t.schema cells)
          (rows.toList.filter (Row.found (first :: rest) t.schema fields.names)) out := by
  obtain ⟨rows, hfind⟩ := Store.find?_of_openTable ht
  have hsound := hstore t.name _ hfind
  have hfit : ∀ cells ∈ rows.toList, FitColumns t.schema.columns cells := by
    intro cells hcells
    obtain ⟨x, hx⟩ := hsound.files_of_mem hcells
    exact hx.fitColumns
  obtain ⟨schema, hschema, -⟩ := TableSchema.rowSchema_of_isSupported hsupported
  obtain ⟨ps, qs, hps, hqs, hmeets⟩ := conditions_eq hfields
  have hfilter : rows.toList.filter (Store.meets qs)
      = rows.toList.filter (Row.found (first :: rest) t.schema fields.names) := by
    apply List.filter_congr
    intro cells hcells
    exact hmeets cells (hfit cells hcells).length_eq
  let r := ScanRequest.withPageSize { table := t, conditions := ps } l.pageSize
  have hscan : store.scan r = .ok (t.schema, rows.toList.filter
      (Row.found (first :: rest) t.schema fields.names)) := by
    simp [Store.scan, Store.lookup, r, ScanRequest.withPageSize, hfind, hqs, hfilter]
  have hrun := run_eq hknown ht hconnection (request_eq hfirst hps) hschema hscan
  obtain ⟨out, hread, hshows⟩ := readRows_shows
    (c := ⟨t.schema, rows.toList.filter (Row.found (first :: rest) t.schema fields.names),
      r.pageSize, r.pageSize_pos, none⟩) (Nat.le_refl _) rfl
    (fun cells hcells => hfit cells (List.mem_of_mem_filter hcells)) hsupported hschema
  exact ⟨rows, out, hfind, hrun.trans hread, hshows⟩

/--
A lookup returns the rows that hold, for each name, a value of some filter row, each once and in the
order of the keys. If all filter rows lack the value of a name, there are none.
-/
theorem run_found (hstore : store.Reachable) (ht : store.openTable t.name = .ok t)
    (hsupported : ∀ c ∈ t.schema.columns, c.type.IsSupported)
    (hknown : l.schemas.UsedFor store) (hconnection : connection.outage = {})
    (hfirst : first.schema? = some fields)
    (hfields : ∀ name ∈ fields.names, ∃ c, t.schema.column? name = some c
      ∧ ∀ r ∈ first :: rest, r.Offers c) :
    ∃ stored out, store.rows t.name = .ok (t.schema, stored)
      ∧ stored.Pairwise (fun a b => Key.order (t.schema.keyOf a) (t.schema.keyOf b) = .lt)
      ∧ (l.run (first :: rest) t store connection).1 = .ok out
      ∧ List.Forall₂ (fun cells (r : Row) => r.Shows t.schema cells)
          (stored.filter (Row.found (first :: rest) t.schema fields.names)) out
      ∧ ((∃ name ∈ fields.names, ∀ r ∈ first :: rest, r.fieldValue name = .ok .null) →
          out = []) := by
  obtain ⟨rows, out, hfind, hrun, hshows⟩ :=
    run_shows hstore.sound ht hsupported hknown hconnection hfirst hfields
  have hordered := (hstore.sound t.name _ hfind).pairwise_order
  refine ⟨rows.toList, out, ?_, hordered, hrun, hshows, ?_⟩
  . simp [Store.rows, Store.lookup, hfind]
  . rintro ⟨name, hname, hnull⟩
    have hnone : rows.toList.filter (Row.found (first :: rest) t.schema fields.names) = [] := by
      rw [List.filter_eq_nil_iff]
      intro cells _
      rw [Bool.not_eq_true]
      exact found_eq_false hname hnull
    rw [hnone] at hshows
    exact List.forall₂_nil_left_iff.1 hshows

/--
Calls after which there are two places in one region and one in another.
-/
def threePlaces : List Call :=
  [.createTable "places" places,
    .apply (placeWrite .insert "a" 1),
    .apply (placeWrite .insert "a" 2),
    .apply (placeWrite .insert "b" 2)]

def threePlacesStore : Store :=
  (runCalls Store.call .empty threePlaces).2

theorem threePlacesStore_reachable : threePlacesStore.Reachable := by
  apply Store.reachable_runCalls .empty
  exact ⟨trivial, .inl ⟨placesTable, _, rfl, rfl⟩, .inl ⟨placesTable, _, rfl, rfl⟩,
    .inl ⟨placesTable, _, rfl, rfl⟩, trivial⟩

theorem places_isSupported : ∀ c ∈ places.columns, c.type.IsSupported := by
  simp [places, Column.key, Column.value, ColumnType.IsSupported]

def placeFields : RowSchema :=
  ⟨[.optional "region" .string, .optional "id" .int32]⟩

/--
A filter row for a place, which may lack the region.
-/
def placeRow (region : Option String) (id : Int32) : Row :=
  .named placeFields [.ofOption (region.map .string), .int32 id]

theorem placeRow_offers {filters : List Row}
    (h : ∀ r ∈ filters, ∃ region id, r = placeRow region id) :
    ∀ name ∈ placeFields.names, ∃ c, places.column? name = some c
      ∧ ∀ r ∈ filters, r.Offers c := by
  intro name hname
  have hname' : name = "region" ∨ name = "id" := by
    simpa [placeFields, RowSchema.names, Field.optional] using hname
  rcases hname' with rfl | rfl
  . refine ⟨.key "region" .string, rfl, ?_⟩
    intro r hr
    obtain ⟨region, id, rfl⟩ := h r hr
    cases region with
    | none => exact ⟨.null, rfl, none, fun _ => rfl⟩
    | some region => exact ⟨.string region, rfl, some (.string region), fun _ => rfl⟩
  . refine ⟨.key "id" .int32, rfl, ?_⟩
    intro r hr
    obtain ⟨region, id, rfl⟩ := h r hr
    exact ⟨.int32 id, rfl, some (.int32 id), fun _ => rfl⟩

def placeLookup : Lookup := { pageSize := 0 }

theorem run_found_threePlaces :
    (threePlacesStore.Reachable ∧ threePlacesStore.openTable "places" = .ok placesTable
      ∧ (∀ c ∈ places.columns, c.type.IsSupported)
      ∧ placeLookup.schemas.UsedFor threePlacesStore
      ∧ (placeRow (some "a") 1).schema? = some placeFields
      ∧ ∀ name ∈ placeFields.names, ∃ c, places.column? name = some c
        ∧ ∀ r ∈ [placeRow (some "a") 1, placeRow none 2], r.Offers c)
      ∧ ∃ out, (placeLookup.run [placeRow (some "a") 1, placeRow none 2] placesTable
          threePlacesStore {}).1 = .ok out
        ∧ List.Forall₂ (fun cells (r : Row) => r.Shows places cells)
          [[some (.string "a"), some (.int32 1), none], [some (.string "a"), some (.int32 2), none]]
          out := by
  have hknown : placeLookup.schemas.UsedFor threePlacesStore := .new
  have hfirst : (placeRow (some "a") 1).schema? = some placeFields := rfl
  have hfields : ∀ name ∈ placeFields.names, ∃ c, places.column? name = some c
      ∧ ∀ r ∈ [placeRow (some "a") 1, placeRow none 2], r.Offers c :=
    placeRow_offers (by simp)
  refine ⟨⟨threePlacesStore_reachable, rfl, places_isSupported, hknown, hfirst, hfields⟩, ?_⟩
  have hconnection : Connection.outage {} = {} := rfl
  have hopen : threePlacesStore.openTable placesTable.name = .ok placesTable := rfl
  obtain ⟨stored, out, hrows, -, hrun, hshows, -⟩ :=
    run_found threePlacesStore_reachable hopen places_isSupported hknown hconnection hfirst hfields
  refine ⟨out, hrun, ?_⟩
  have hrows' : threePlacesStore.rows "places" = .ok (places,
      [[some (.string "a"), some (.int32 1), none], [some (.string "a"), some (.int32 2), none],
        [some (.string "b"), some (.int32 2), none]]) := rfl
  have hstored := (Prod.mk.inj (Except.ok.inj (hrows.symm.trans hrows'))).2
  rw [hstored] at hshows
  exact hshows

end Lookup

end KeyedTables
