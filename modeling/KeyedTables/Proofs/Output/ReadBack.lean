import KeyedTables.Output.Basic
import KeyedTables.Proofs.Lookup.ByKey
import KeyedTables.Proofs.Session.Accepted

/-!
This module contains what a pipeline reads back of the planned rows that it wrote: if a batch of
upserts succeeds, then looking up the key of each of its rows returns one row, which holds what the
batch wrote last under this key, and elsewhere what was there before.
-/

namespace KeyedTables

namespace Row

variable {t : TableHandle} {dropUnknown : Bool} {planned : List Row} {ws : List Write} {r : Row}

/--
The row asks for an upsert, and no two of its fields have the same name.
-/
structure PlansUpsert [Calendar] (r : Row) : Prop where
  intent_eq : r.intent = .ok .upsert
  names_nodup : ∃ schema, r.schema? = some schema ∧ schema.names.Nodup

theorem PlansUpsert.upserts [Calendar] {w : Write} (hr : r.PlansUpsert)
    (hmarker : ∀ c ∈ t.schema.columns, c.name ≠ markerField)
    (h : r.toWrite t dropUnknown = .ok w) :
    Store.Upserts t w ∧ w.draft.cells = r.cells t.schema := by
  obtain ⟨schema, hschema, hnames⟩ := hr.names_nodup
  obtain ⟨hkind, htable, -⟩ := exists_fill_of_toWrite hschema h
  obtain ⟨hdraft, hcells⟩ := cells_eq_of_toWrite hschema hnames hmarker h
  have hupsert : r.writeKind = .ok .upsert := by
    unfold writeKind
    rw [hr.intent_eq]
    rfl
  have hw : WriteKind.upsert = w.kind := by simpa [hupsert] using hkind
  exact ⟨⟨hw.symm, htable, hdraft⟩, hcells⟩

theorem upserts_of_toWrites [Calendar] (hplanned : ∀ r ∈ planned, r.PlansUpsert)
    (hmarker : ∀ c ∈ t.schema.columns, c.name ≠ markerField)
    (h : toWrites t dropUnknown planned = .ok ws) :
    (∀ w ∈ ws, Store.Upserts t w)
      ∧ ws.map (·.draft.cells) = planned.map fun r => r.cells t.schema := by
  have hall := forall₂_of_toWrites h
  clear h
  induction hall with
  | nil => simp
  | @cons r w planned ws hw _ ih =>
    obtain ⟨hupserts, hcells⟩ := (hplanned r List.mem_cons_self).upserts hmarker hw
    obtain ⟨hrest, hcellsRest⟩ := ih fun q hq => hplanned q (List.mem_cons_of_mem r hq)
    refine ⟨?_, by rw [List.map_cons, List.map_cons, hcells, hcellsRest]⟩
    rw [List.forall_mem_cons]
    exact ⟨hupserts, hrest⟩

end Row

namespace Row

/--
The row has no value for the column that is not missing.
-/
def Lacks (r : Row) (c : Column) : Prop :=
  ∀ v, r.fieldValue c.name = .ok v → v = .null

theorem Lacks.cellIn?_eq {r : Row} {c : Column} (h : r.Lacks c) : r.cellIn? c = none := by
  unfold cellIn?
  split
  . next v hv =>
    rw [h v hv]
    rfl
  . rfl

end Row

namespace Output

variable {s : Service} {o : Output} {x : Session} {t : TableHandle} {planned : List Row} {q r : Row}

theorem exists_writes_of_applyPlanned [Calendar] (hconnection : s.connection.outage = {})
    (ht : s.store.openTable o.settings.tableName = .ok t)
    (hok : (o.applyPlanned planned s).1 = .ok ()) :
    ∃ ws, Row.toWrites t o.settings.ignoreMissingColumns planned = .ok ws
      ∧ o.applyPlanned planned s = s.applyBatch o.batchPolicy ⟨0, true⟩ ws := by
  have hsession : s.connectionSession = .ok ⟨0, true⟩ := by
    simp [Service.connectionSession, hconnection]
  have hopen : openTable s o.settings.tableName = .ok t := by
    simp [openTable, Connection.openTable, hconnection, ht]
  unfold applyPlanned at hok ⊢
  rw [hsession] at hok ⊢
  dsimp only at hok ⊢
  rw [hopen] at hok ⊢
  dsimp only at hok ⊢
  cases hws : Row.toWrites t o.settings.ignoreMissingColumns planned with
  | error e =>
    rw [hws] at hok
    contradiction
  | ok ws => exact ⟨ws, rfl, rfl⟩

theorem existing_eq (hconnection : s.connection.outage = {})
    (ht : s.store.openTable o.settings.tableName = .ok t) :
    (o.existing [q] s).1 = (o.lookup.run [q] t s.store s.connection).1 := by
  have hopen : openTable s o.settings.tableName = .ok t := by
    simp [openTable, Connection.openTable, hconnection, ht]
  unfold existing
  rw [if_neg (by simp), hopen]

/--
After upserts that were all taken, the key of each planned row is that of a row of the table. A cell
of it is what the batch put there, over the one that was held before.
-/
theorem rowOf?_of_upserts [Calendar] {store : Store} {rows : Rows} {dropUnknown : Bool} {ws : List Write}
    (hstore : store.Sound) (hfind : store.find? t.name = some ⟨t, rows⟩)
    (hplanned : ∀ r ∈ planned, r.PlansUpsert)
    (hmarker : ∀ c ∈ t.schema.columns, c.name ≠ Row.markerField)
    (hws : Row.toWrites t dropUnknown planned = .ok ws) (htaken : store.rejections ws = [])
    (hr : r ∈ planned) :
    t.schema.KeyOf (r.cells t.schema) (r.keyIn t.schema)
      ∧ ∃ cells, (store.appliedAll ws).rowOf? t (r.keyIn t.schema) = some cells
        ∧ ∀ i, cells[i]?.join
          = (planned.map fun d => d.cells t.schema).foldl
              (Store.overwrite t.schema (r.keyIn t.schema) i)
              ((store.rowOf? t (r.keyIn t.schema)).bind (·[i]?.join)) := by
  obtain ⟨hupserts, hcells⟩ := Row.upserts_of_toWrites hplanned hmarker hws
  obtain ⟨rows', hsound, hfind', hover⟩ := Store.appliedAll_upserts hstore hfind hupserts htaken
  rw [hcells] at hover
  have hmem : r.cells t.schema ∈ planned.map fun d => d.cells t.schema := List.mem_map_of_mem hr
  have hkey : t.schema.KeyOf (r.cells t.schema) (r.keyIn t.schema) := hover.keyOf _ hmem
  refine ⟨hkey, ?_⟩
  obtain ⟨cells, hrow⟩ : ∃ cells, rows'.find? (Key.encodeKey (r.keyIn t.schema)) = some cells :=
    Option.isSome_iff_exists.1 (hover.isSome_find?_keyOf _ hmem)
  refine ⟨cells, ?_, ?_⟩
  . rw [Store.rowOf?_eq hsound hfind' hkey.fitsKey, hrow]
  . intro i
    have hcell := hover.cellAt_eq (r.keyIn t.schema) i hkey.fitsKey
    unfold Rows.cellAt at hcell
    rw [hrow, Option.bind_some] at hcell
    rw [Store.rowOf?_eq hstore hfind hkey.fitsKey]
    exact hcell

/-!
# The cells of one column
-/

section Column

variable {schema : TableSchema} {i : Nat} {c : Column} {before : Option Cell} {w : Value}

theorem foldl_overwrite_of_lacks (hc : schema.columns[i]? = some c)
    (hlacks : ∀ d ∈ planned, d.keyIn schema = r.keyIn schema → d.Lacks c) :
    (planned.map fun d => d.cells schema).foldl (Store.overwrite schema (r.keyIn schema) i) before
      = before := by
  apply Store.foldl_overwrite_of_none
  rw [List.forall_mem_map]
  intro d hd hkey
  rw [Row.getElem?_cells hc]
  exact (hlacks d hd hkey).cellIn?_eq

theorem foldl_overwrite_of_last {pre post : List Row} {p : Row} {cell : Cell}
    (hc : schema.columns[i]? = some c) (hp : p.keyIn schema = r.keyIn schema)
    (hcell : p.cellIn? c = some cell)
    (hpost : ∀ d ∈ post, d.keyIn schema = r.keyIn schema → d.Lacks c) :
    ((pre ++ p :: post).map fun d => d.cells schema).foldl
      (Store.overwrite schema (r.keyIn schema) i) before = some cell := by
  have hover : ∀ cell', Store.overwrite schema (r.keyIn schema) i cell' (p.cells schema)
      = some cell := by
    intro cell'
    have hkey : schema.keyOf (p.cells schema) = r.keyIn schema := hp
    unfold Store.overwrite
    rw [if_pos hkey, Row.getElem?_cells hc, hcell]
    rfl
  rw [List.map_append, List.map_cons, List.foldl_append, List.foldl_cons, hover]
  exact foldl_overwrite_of_lacks hc hpost

/--
What is shown of a column is the last value that the planned rows of the key have for it.
-/
theorem rereadIn_of_last [Calendar] {dropUnknown : Bool} {ws : List Write} {pre post : List Row} {p : Row}
    {v : Value} (hplanned : ∀ r ∈ planned, r.PlansUpsert)
    (hws : Row.toWrites t dropUnknown planned = .ok ws) (hc : t.schema.columns[i]? = some c)
    (hmarker : c.name ≠ Row.markerField) (hsplit : planned = pre ++ p :: post)
    (hp : p.keyIn t.schema = r.keyIn t.schema) (hv : p.fieldValue c.name = .ok v)
    (hnull : v ≠ .null)
    (hpost : ∀ d ∈ post, d.keyIn t.schema = r.keyIn t.schema → d.Lacks c)
    (hshows : c.type.Shows ((planned.map fun d => d.cells t.schema).foldl
      (Store.overwrite t.schema (r.keyIn t.schema) i) before) w) :
    Value.RereadIn c.type v w := by
  have hmem : p ∈ planned := by simp [hsplit]
  obtain ⟨schema, hschema, -⟩ := (hplanned p hmem).names_nodup
  obtain ⟨u, -, hu⟩ := exists_right_of_forall₂ (Row.forall₂_of_toWrites hws) hmem
  obtain ⟨cell, hcell⟩ :=
    Row.cellIn?_of_toWrite hschema hu (List.mem_of_getElem? hc) hmarker hv hnull
  have hpcell : p.cellIn? c = some cell := by rw [Row.cellIn?_eq hv, hcell]
  obtain ⟨w', hw', hreread⟩ := Value.cellIn?_shows hcell
  rw [hsplit, foldl_overwrite_of_last hc hp hpcell hpost] at hshows
  rw [hshows.unique hw']
  exact hreread

end Column

/-!
# The batch
-/

/--
If a batch of planned upserts succeeds, then each of them was taken.
-/
theorem taken_of_applyPlanned [Calendar] (hholds : s.Holds ⟨0, true⟩ x) (hx : x.Steady)
    (hout : x.outstanding = 0) (hopen : x.closed = false)
    (hcapacity : 0 < x.settings.errorCapacity) (hconnection : s.connection.outage = {})
    (htimeout : o.settings.applyTimeout? = none)
    (ht : s.store.openTable o.settings.tableName = .ok t)
    (hmarker : ∀ c ∈ t.schema.columns, c.name ≠ Row.markerField)
    (hplanned : ∀ r ∈ planned, r.PlansUpsert) (hok : (o.applyPlanned planned s).1 = .ok ()) :
    ∃ ws, Row.toWrites t o.settings.ignoreMissingColumns planned = .ok ws
      ∧ s.store.rejections ws = []
      ∧ (o.applyPlanned planned s).2.store = s.store.appliedAll ws
      ∧ (o.applyPlanned planned s).2.connection.outage = {} := by
  obtain ⟨ws, hws, happly⟩ := exists_writes_of_applyPlanned hconnection ht hok
  obtain ⟨hupserts, -⟩ := Row.upserts_of_toWrites hplanned hmarker hws
  have hreported : ∀ w ∈ ws, ∀ (store : Store) status, store.apply w = .error status →
      ¬ o.batchPolicy.Ignores status := by
    intro w hw store status herror hignores
    exact Store.code_ne_of_upsert (hupserts w hw).kind_eq herror hignores.2
  rw [happly] at hok ⊢
  obtain ⟨htaken, hafter⟩ :=
    hholds.taken_of_applyBatch hx hout hopen hcapacity htimeout hreported hok
  exact ⟨ws, hws, htaken, hafter, by rw [Service.outage_applyBatch, hconnection]⟩

/--
After a batch of planned upserts has succeeded, the lookup for the key of one of them returns one
row. A column holds the last value that the batch has for it under this key, or what it held before
if the batch has none.
-/
theorem existing_of_applyPlanned [Calendar] (hstore : s.store.Reachable) (hholds : s.Holds ⟨0, true⟩ x)
    (hx : x.Steady) (hout : x.outstanding = 0) (hopen : x.closed = false)
    (hcapacity : 0 < x.settings.errorCapacity) (hconnection : s.connection.outage = {})
    (htimeout : o.settings.applyTimeout? = none) (hknown : o.lookup.schemas.UsedFor s.store)
    (ht : s.store.openTable o.settings.tableName = .ok t)
    (hsupported : ∀ c ∈ t.schema.columns, c.type.IsSupported)
    (hexact : ∀ c ∈ t.schema.keyColumns, c.type ≠ .float ∧ c.type ≠ .double)
    (hmarker : ∀ c ∈ t.schema.columns, c.name ≠ Row.markerField)
    (hplanned : ∀ r ∈ planned, r.PlansUpsert) (hok : (o.applyPlanned planned s).1 = .ok ()) :
    ∀ r ∈ planned, ∀ q : Row, q.IsKeyOf r t.schema →
      ∃ found, (o.existing [q] (o.applyPlanned planned s).2).1 = .ok [found]
        ∧ ∀ (i : Nat) (c : Column), t.schema.columns[i]? = some c →
          ∃ w, found.fieldValue c.name = .ok w
            ∧ (∀ pre p post v, planned = pre ++ p :: post →
                p.keyIn t.schema = r.keyIn t.schema →
                p.fieldValue c.name = .ok v → v ≠ .null →
                (∀ d ∈ post, d.keyIn t.schema = r.keyIn t.schema → d.Lacks c) →
                Value.RereadIn c.type v w)
            ∧ ((∀ d ∈ planned, d.keyIn t.schema = r.keyIn t.schema → d.Lacks c) →
                c.type.Shows ((s.store.rowOf? t (r.keyIn t.schema)).bind (·[i]?.join)) w) := by
  obtain ⟨ws, hws, htaken, hafter, houtage⟩ := taken_of_applyPlanned hholds hx hout hopen
    hcapacity hconnection htimeout ht hmarker hplanned hok
  generalize (o.applyPlanned planned s).2 = s' at *
  obtain ⟨rows, hfind⟩ := Store.find?_of_openTable ht
  have hname : t.name = o.settings.tableName := Store.name_of_find? hfind
  rw [← hname] at hfind
  obtain ⟨hupserts, -⟩ := Row.upserts_of_toWrites hplanned hmarker hws
  obtain ⟨-, hsound, -⟩ := Store.appliedAll_upserts hstore.sound hfind hupserts htaken
  rw [← hafter] at hsound
  have htables : ∀ name, s'.store.openTable name = s.store.openTable name := by
    intro name
    rw [hafter, Store.openTable_appliedAll]
  have ht' : s'.store.openTable o.settings.tableName = .ok t := by rw [htables, ht]
  intro r hr q hq
  obtain ⟨hkey, cells, hrow, hcells⟩ :=
    rowOf?_of_upserts hstore.sound hfind hplanned hmarker hws htaken hr
  rw [← hafter] at hrow
  obtain ⟨found, hrun, hshows⟩ := Lookup.run_of_key hsound (by rw [hname, ht']) hsupported hexact
    (hknown.congr htables) houtage hq hkey hrow
  refine ⟨found, by rw [existing_eq houtage ht', hrun], ?_⟩
  intro i c hc
  obtain ⟨w, hw, hwshows⟩ := hshows.fieldValue_eq hsupported hc
  rw [hcells i] at hwshows
  refine ⟨w, hw, ?_, ?_⟩
  . intro pre p post v hsplit hp hv hnull hpost
    exact rereadIn_of_last hplanned hws hc (hmarker c (List.mem_of_getElem? hc)) hsplit hp hv hnull
      hpost hwshows
  . intro hlacks
    rwa [foldl_overwrite_of_lacks hc hlacks] at hwshows

/-!
# Places
-/

def plannedFields : RowSchema :=
  ⟨[.optional Row.markerField .string, .optional "region" .string, .optional "id" .int32,
    .optional "name" .string]⟩

/--
A planned upsert of a place, which may lack the name.
-/
def plannedPlace (region : String) (id : Int32) (name : Option String) : Row :=
  .named plannedFields [.string Intent.upsert.name, .string region, .int32 id,
    .ofOption (name.map .string)]

theorem plannedPlace_plansUpsert (region : String) (id : Int32) (name : Option String) :
    (plannedPlace region id name).PlansUpsert :=
  ⟨rfl, plannedFields, rfl, by decide⟩

theorem plannedPlace_lacks (region : String) (id : Int32) :
    (plannedPlace region id none).Lacks (.value "name" .string) := by
  intro v hv
  have hnull : (plannedPlace region id none).fieldValue "name" = .ok .null := rfl
  exact (Except.ok.inj (hnull.symm.trans hv)).symm

theorem placeRow_isKeyOf (region : String) (id : Int32) (name : Option String) :
    (Lookup.placeRow (some region) id).IsKeyOf (plannedPlace region id name) places := by
  have hkeys : places.keyColumns = [.key "region" .string, .key "id" .int32] := rfl
  constructor
  case schema =>
    refine ⟨Lookup.placeFields, rfl, ?_⟩
    intro n
    simp [hkeys, Lookup.placeFields, RowSchema.names, Field.optional, Column.key, eq_comm]
  case fieldValue_eq =>
    intro c hc
    rw [hkeys] at hc
    simp only [List.mem_cons, List.not_mem_nil, or_false] at hc
    rcases hc with rfl | rfl <;> rfl

def plannedPlaces : List Row :=
  [plannedPlace "a" 1 (some "mill"), plannedPlace "a" 1 none, plannedPlace "c" 1 none]

def placesOutput : Output :=
  { settings := { connection := "master:7051", tableName := "places" } }

def placesService : Service :=
  { store := Lookup.threePlacesStore }

theorem placesService_holds : placesService.Holds ⟨0, true⟩ {} := by
  constructor
  case slot => exact ⟨0, rfl⟩
  case gate => exact fun _ => rfl
  case others => exact (Service.holds_of_single Lookup.threePlacesStore {} 0).others

theorem plannedPlaces_plansUpsert : ∀ r ∈ plannedPlaces, r.PlansUpsert := by
  unfold plannedPlaces
  simp only [List.forall_mem_cons]
  exact ⟨plannedPlace_plansUpsert .., plannedPlace_plansUpsert .., plannedPlace_plansUpsert ..,
    by simp⟩

/--
The name that the first planned row gives to the place is read back, although the second one, for
the same place, has none.
-/
theorem existing_of_plannedPlaces :
    (placesService.store.Reachable ∧ placesService.Holds ⟨0, true⟩ {}
      ∧ Session.Steady {}
      ∧ placesOutput.lookup.schemas.UsedFor placesService.store
      ∧ placesService.store.openTable placesOutput.settings.tableName = .ok placesTable
      ∧ (∀ c ∈ places.columns, c.type.IsSupported)
      ∧ (∀ c ∈ places.keyColumns, c.type ≠ .float ∧ c.type ≠ .double)
      ∧ (∀ c ∈ places.columns, c.name ≠ Row.markerField)
      ∧ (∀ r ∈ plannedPlaces, r.PlansUpsert)
      ∧ (placesOutput.applyPlanned plannedPlaces placesService).1 = .ok ()
      ∧ plannedPlace "a" 1 none ∈ plannedPlaces
      ∧ (Lookup.placeRow (some "a") 1).IsKeyOf (plannedPlace "a" 1 none) places)
      ∧ ∃ found, (placesOutput.existing [Lookup.placeRow (some "a") 1]
          (placesOutput.applyPlanned plannedPlaces placesService).2).1 = .ok [found]
        ∧ found.fieldValue "name" = .ok (.string "mill") := by
  have hsteady : Session.Steady {} := (Session.clean_new {}).steady
  have hknown : placesOutput.lookup.schemas.UsedFor placesService.store := .new
  have hopen : placesService.store.openTable placesOutput.settings.tableName = .ok placesTable :=
    rfl
  have hexact : ∀ c ∈ places.keyColumns, c.type ≠ .float ∧ c.type ≠ .double := by decide
  have hmarker : ∀ c ∈ places.columns, c.name ≠ Row.markerField := by decide
  have hok : (placesOutput.applyPlanned plannedPlaces placesService).1 = .ok () := rfl
  have hmem : plannedPlace "a" 1 none ∈ plannedPlaces := .tail _ (.head _)
  have hkey := placeRow_isKeyOf "a" 1 none
  refine ⟨⟨Lookup.threePlacesStore_reachable, placesService_holds, hsteady, hknown, hopen,
    Lookup.places_isSupported, hexact, hmarker, plannedPlaces_plansUpsert, hok, hmem, hkey⟩, ?_⟩
  obtain ⟨found, hfound, hcolumns⟩ :=
    existing_of_applyPlanned Lookup.threePlacesStore_reachable placesService_holds hsteady rfl rfl
      (by decide) rfl rfl hknown hopen Lookup.places_isSupported hexact hmarker
      plannedPlaces_plansUpsert hok _ hmem _ hkey
  obtain ⟨w, hw, hlast, -⟩ := hcolumns 2 (.value "name" .string) rfl
  refine ⟨found, hfound, ?_⟩
  have hlacks : ∀ d ∈ [plannedPlace "a" 1 none, plannedPlace "c" 1 none],
      d.keyIn places = (plannedPlace "a" 1 none).keyIn places → d.Lacks (.value "name" .string) := by
    simp only [List.forall_mem_cons]
    exact ⟨fun _ => plannedPlace_lacks "a" 1, fun _ => plannedPlace_lacks "c" 1, by simp⟩
  have hreread := hlast [] (plannedPlace "a" 1 (some "mill")) _ (.string "mill") rfl rfl rfl
    (by simp) hlacks
  cases hreread
  exact hw

end Output

end KeyedTables
