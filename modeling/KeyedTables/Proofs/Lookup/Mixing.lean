import KeyedTables.Proofs.Lookup.Found

/-!
This module contains when a lookup returns only rows that one of its filter rows describes. It asks
for each name on its own, and so it also returns rows that mix values of several filter rows.
-/

namespace KeyedTables

namespace Row

variable {r q : Row} {filters : List Row} {s : TableSchema} {names : List String} {cells : Cells}

def describes (r : Row) (s : TableSchema) (names : List String) (cells : Cells) : Bool :=
  names.all fun name => r.agreesOn s cells name

/--
On each name the cells agree with some filter row, but with none on all of them.
-/
def Mixed (filters : List Row) (s : TableSchema) (names : List String) (cells : Cells) : Prop :=
  found filters s names cells = true ∧ ∀ r ∈ filters, r.describes s names cells = false

/--
The filter rows give all columns the same cells, but for one that is among the names.
-/
def DifferOnlyIn (name : String) (filters : List Row) (s : TableSchema) (names : List String) :
    Prop :=
  ∀ c ∈ s.columns, c.name ∈ names → c.name ≠ name → ∀ r ∈ filters, ∀ q ∈ filters,
    r.cellIn? c = q.cellIn? c

theorem found_of_describes (hr : r ∈ filters) (h : r.describes s names cells = true) :
    found filters s names cells = true := by
  unfold describes at h
  unfold found
  rw [List.all_eq_true] at *
  intro name hname
  exact List.any_eq_true.2 ⟨r, hr, h name hname⟩

theorem exists_describes_of_not_mixed (hfound : found filters s names cells = true)
    (h : ¬ Mixed filters s names cells) : ∃ r ∈ filters, r.describes s names cells = true := by
  apply Classical.byContradiction
  intro hnone
  apply h
  refine ⟨hfound, ?_⟩
  intro r hr
  rw [← Bool.not_eq_true]
  intro hdescribes
  exact hnone ⟨r, hr, hdescribes⟩

theorem agreesOn_congr {name : String}
    (h : ∀ c ∈ s.columns, c.name = name → r.cellIn? c = q.cellIn? c) :
    r.agreesOn s cells name = q.agreesOn s cells name := by
  unfold agreesOn
  rw [Bool.eq_iff_iff, List.any_eq_true, List.any_eq_true]
  apply exists_congr
  rintro ⟨c, cell⟩
  apply and_congr_right
  intro hmem
  by_cases hname : c.name = name
  . simp [h c (List.of_mem_zip hmem).1 hname]
  . simp [hname]

theorem not_mixed_of_differOnlyIn {name : String} (hfilters : filters ≠ [])
    (h : DifferOnlyIn name filters s names) : ¬ Mixed filters s names cells := by
  rintro ⟨hfound, hnone⟩
  have hagrees : ∀ n ∈ names, ∃ r ∈ filters, r.agreesOn s cells n = true := by
    intro n hn
    exact List.any_eq_true.1 (List.all_eq_true.1 hfound n hn)
  -- the filter row that agrees on the one field agrees on the others as well
  obtain ⟨r, hr, hrname⟩ : ∃ r ∈ filters, name ∈ names → r.agreesOn s cells name = true := by
    by_cases hname : name ∈ names
    . obtain ⟨r, hr, hrname⟩ := hagrees name hname
      exact ⟨r, hr, fun _ => hrname⟩
    . obtain ⟨r, hr⟩ := List.exists_mem_of_ne_nil filters hfilters
      exact ⟨r, hr, fun hmem => absurd hmem hname⟩
  have hdescribes : r.describes s names cells = true := by
    unfold describes
    rw [List.all_eq_true]
    intro n hn
    by_cases heq : n = name
    . rw [heq]
      exact hrname (by rwa [← heq])
    . obtain ⟨q, hq, hqn⟩ := hagrees n hn
      rw [← hqn]
      apply agreesOn_congr
      intro c hc hcn
      exact h c hc (by rwa [hcn]) (by rwa [hcn]) r hr q hq
  rw [hnone r hr] at hdescribes
  contradiction

end Row

namespace Lookup

variable {store : Store} {t : TableHandle} {l : Lookup} {first : Row} {rest : List Row}
variable {fields : RowSchema} {connection : Connection}

/--
A lookup returns every row that a filter row describes. It returns no others exactly if the table
has no row that mixes filter rows, and there is none if the filter rows differ in one field only.
-/
theorem run_describes_iff (hstore : store.Reachable) (ht : store.openTable t.name = .ok t)
    (hsupported : ∀ c ∈ t.schema.columns, c.type.IsSupported)
    (hknown : l.schemas.UsedFor store) (hconnection : connection.outage = {})
    (hfirst : first.schema? = some fields)
    (hfields : ∀ name ∈ fields.names, ∃ c, t.schema.column? name = some c
      ∧ ∀ r ∈ first :: rest, r.Offers c) :
    ∃ stored out, store.rows t.name = .ok (t.schema, stored)
      ∧ (l.run (first :: rest) t store connection).1 = .ok out
      ∧ (∀ cells ∈ stored, (∃ r ∈ first :: rest, r.describes t.schema fields.names cells = true) →
          ∃ row ∈ out, row.Shows t.schema cells)
      ∧ ((∀ row ∈ out, ∃ cells ∈ stored, row.Shows t.schema cells
            ∧ ∃ r ∈ first :: rest, r.describes t.schema fields.names cells = true) ↔
          ∀ cells ∈ stored, ¬ Row.Mixed (first :: rest) t.schema fields.names cells)
      ∧ ((∃ name, Row.DifferOnlyIn name (first :: rest) t.schema fields.names) →
          ∀ cells ∈ stored, ¬ Row.Mixed (first :: rest) t.schema fields.names cells) := by
  obtain ⟨rows, out, hfind, hrun, hshows⟩ :=
    run_shows hstore.sound ht hsupported hknown hconnection hfirst hfields
  have hlength : ∀ cells ∈ rows.toList, cells.length = t.schema.columns.length := by
    intro cells hcells
    obtain ⟨x, hx⟩ := (hstore.sound t.name _ hfind).files_of_mem hcells
    exact hx.fitColumns.length_eq
  have hreturned : ∀ cells ∈ rows.toList,
      Row.found (first :: rest) t.schema fields.names cells = true →
        ∃ row ∈ out, row.Shows t.schema cells := by
    intro cells hcells hfound
    exact exists_right_of_forall₂ hshows (List.mem_filter.2 ⟨hcells, hfound⟩)
  have hstored : ∀ row ∈ out, ∃ cells ∈ rows.toList,
      Row.found (first :: rest) t.schema fields.names cells = true ∧ row.Shows t.schema cells := by
    intro row hrow
    obtain ⟨cells, hcells, hrowShows⟩ := exists_left_of_forall₂ hshows hrow
    obtain ⟨hmem, hfound⟩ := List.mem_filter.1 hcells
    exact ⟨cells, hmem, hfound, hrowShows⟩
  refine ⟨rows.toList, out, ?_, hrun, ?_, ?_, ?_⟩
  . simp [Store.rows, Store.lookup, hfind]
  . rintro cells hcells ⟨r, hr, hdescribes⟩
    exact hreturned cells hcells (Row.found_of_describes hr hdescribes)
  . constructor
    . rintro hall cells hcells ⟨hfound, hnone⟩
      obtain ⟨row, hrow, hrowShows⟩ := hreturned cells hcells hfound
      obtain ⟨other, hother, hotherShows, r, hr, hdescribes⟩ := hall row hrow
      have heq := hrowShows.cells_unique hotherShows (hlength cells hcells) (hlength other hother)
      rw [← heq, hnone r hr] at hdescribes
      contradiction
    . intro hnone row hrow
      obtain ⟨cells, hcells, hfound, hrowShows⟩ := hstored row hrow
      exact ⟨cells, hcells, hrowShows,
        Row.exists_describes_of_not_mixed hfound (hnone cells hcells)⟩
  . rintro ⟨name, hname⟩ cells _
    exact Row.not_mixed_of_differOnlyIn (List.cons_ne_nil first rest) hname

theorem run_describes_threePlaces :
    (threePlacesStore.Reachable ∧ threePlacesStore.openTable "places" = .ok placesTable
      ∧ (∀ c ∈ places.columns, c.type.IsSupported)
      ∧ placeLookup.schemas.UsedFor threePlacesStore
      ∧ (placeRow (some "a") 1).schema? = some placeFields
      ∧ ∀ name ∈ placeFields.names, ∃ c, places.column? name = some c
        ∧ ∀ r ∈ [placeRow (some "a") 1, placeRow (some "a") 2], r.Offers c)
      ∧ ∃ stored out, threePlacesStore.rows "places" = .ok (places, stored)
        ∧ (placeLookup.run [placeRow (some "a") 1, placeRow (some "a") 2] placesTable
            threePlacesStore {}).1 = .ok out
        ∧ ∀ row ∈ out, ∃ cells ∈ stored, row.Shows places cells
          ∧ ∃ r ∈ [placeRow (some "a") 1, placeRow (some "a") 2],
            r.describes places placeFields.names cells = true := by
  have hknown : placeLookup.schemas.UsedFor threePlacesStore := .new
  have hfirst : (placeRow (some "a") 1).schema? = some placeFields := rfl
  have hfields : ∀ name ∈ placeFields.names, ∃ c, places.column? name = some c
      ∧ ∀ r ∈ [placeRow (some "a") 1, placeRow (some "a") 2], r.Offers c :=
    placeRow_offers (by simp)
  refine ⟨⟨threePlacesStore_reachable, rfl, places_isSupported, hknown, hfirst, hfields⟩, ?_⟩
  have hconnection : Connection.outage {} = {} := rfl
  have hopen : threePlacesStore.openTable placesTable.name = .ok placesTable := rfl
  obtain ⟨stored, out, hrows, hrun, -, hiff, hdiffer⟩ :=
    run_describes_iff threePlacesStore_reachable hopen places_isSupported hknown hconnection hfirst
      hfields
  have hdiffer' : Row.DifferOnlyIn "id" [placeRow (some "a") 1, placeRow (some "a") 2] places
      placeFields.names := by
    unfold Row.DifferOnlyIn
    decide
  exact ⟨stored, out, hrows, hrun, hiff.2 (hdiffer ⟨"id", hdiffer'⟩)⟩

/--
The second place of the first region, as lookups return it.
-/
def strayPlace : Row :=
  .named ⟨[.optional "region" .string, .optional "id" .int32, .optional "name" .string]⟩
    [.string "a", .int32 2, .null]

/--
A lookup for the first place of one region and the second one of another returns a place that
differs from either filter row.
-/
theorem run_returns_mixed :
    (threePlacesStore.Reachable ∧ threePlacesStore.openTable "places" = .ok placesTable
      ∧ (∀ c ∈ places.columns, c.type.IsSupported)
      ∧ placeLookup.schemas.UsedFor threePlacesStore
      ∧ (∀ r ∈ [placeRow (some "a") 1, placeRow (some "b") 2], r.schema? = some placeFields)
      ∧ ∀ name ∈ placeFields.names, ∃ c, places.column? name = some c
        ∧ ∀ r ∈ [placeRow (some "a") 1, placeRow (some "b") 2], r.Offers c)
      ∧ ∃ out, (placeLookup.run [placeRow (some "a") 1, placeRow (some "b") 2] placesTable
          threePlacesStore {}).1 = .ok out
        ∧ strayPlace ∈ out
        ∧ ∀ r ∈ [placeRow (some "a") 1, placeRow (some "b") 2], ∃ name ∈ placeFields.names,
          strayPlace.fieldValue name ≠ r.fieldValue name := by
  refine ⟨⟨threePlacesStore_reachable, rfl, places_isSupported, .new, by simp [placeRow, Row.named],
    placeRow_offers (by simp)⟩, _, rfl, by decide, ?_⟩
  intro r hr
  simp only [List.mem_cons, List.not_mem_nil, or_false] at hr
  rcases hr with rfl | rfl
  . have hfirst : (placeRow (some "a") 1).fieldValue "id" = .ok (.int32 1) := rfl
    have hstray : strayPlace.fieldValue "id" = .ok (.int32 2) := rfl
    refine ⟨"id", by decide, ?_⟩
    rw [hfirst, hstray]
    simp
  . have hsecond : (placeRow (some "b") 2).fieldValue "region" = .ok (.string "b") := rfl
    have hstray : strayPlace.fieldValue "region" = .ok (.string "a") := rfl
    refine ⟨"region", by decide, ?_⟩
    rw [hsecond, hstray]
    simp

end Lookup

end KeyedTables
