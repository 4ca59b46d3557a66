import KeyedTables.Proofs.Transfer.RoundTrip

/-!
This module contains what the write of a planned row is, said for each column and each field on its
own. The row fails at its first field that a column does not take. Otherwise each column has the
cell of the last value that the row has for it, and the fields that belong to no column are noted in
order.
-/

namespace KeyedTables

namespace Draft

variable {d d' : Draft} {c : Column} {target : Target} {entries : List (Field × Value)}

/--
The error of a field that belongs to a column which does not take its value.
-/
def rejection? (s : TableSchema) (target : Target) (e : Field × Value) : Option TransferError :=
  match s.column? e.1.name with
  | none => none
  | some c =>
    match e.2.toCell c target with
    | .ok _ => none
    | .error problem => some problem

/--
The last value of a field with this name that is not missing.
-/
def lastValue? (name : String) (entries : List (Field × Value)) : Option Value :=
  (entries.filter fun e => e.1.name == name && !e.2.isNull).getLast?.map (·.2)

theorem lastValue?_cons (name : String) (e : Field × Value) (entries : List (Field × Value)) :
    lastValue? name (e :: entries)
      =
    match lastValue? name entries with
    | some v => some v
    | none => if e.1.name == name && !e.2.isNull then some e.2 else none := by
  unfold lastValue?
  rw [List.filter_cons]
  split
  . rw [List.getLast?_cons]
    cases (entries.filter fun e => e.1.name == name && !e.2.isNull).getLast? <;> rfl
  . cases (entries.filter fun e => e.1.name == name && !e.2.isNull).getLast? <;> rfl

theorem exists_of_lastValue? {name : String} {v : Value} (h : lastValue? name entries = some v) :
    ∃ e ∈ entries, e.1.name = name ∧ e.2 = v ∧ v ≠ .null := by
  obtain ⟨e, he, hev⟩ := Option.map_eq_some_iff.1 h
  obtain ⟨hmem, hmatch⟩ := List.mem_filter.1 (List.mem_of_getLast? he)
  simp only [Bool.and_eq_true, beq_iff_eq, Bool.not_eq_true'] at hmatch
  refine ⟨e, hmem, hmatch.1, hev, ?_⟩
  rintro rfl
  rw [hev] at hmatch
  exact absurd hmatch.2 (by decide)

/--
Writing fields fails with the first rejection, and if there is none it succeeds.
-/
theorem fill_cases (dropUnknown : Bool) (target : Target) (d : Draft)
    (entries : List (Field × Value)) :
    match entries.findSome? (rejection? d.schema target) with
    | some e => fill dropUnknown target d entries = .error e
    | none => ∃ d', fill dropUnknown target d entries = .ok d' := by
  induction entries generalizing d with
  | nil => exact ⟨d, rfl⟩
  | cons e entries ih =>
    obtain ⟨f, v⟩ := e
    rw [List.findSome?_cons, fill.eq_2]
    cases hc : d.schema.column? f.name with
    | none =>
      have hrejection : rejection? d.schema target (f, v) = none := by simp [rejection?, hc]
      have hschema : (if dropUnknown then d else d.markUnresolved f.name).schema = d.schema := by
        split <;> rfl
      have hrest := ih (if dropUnknown then d else d.markUnresolved f.name)
      rw [hschema] at hrest
      rwa [hrejection]
    | some c =>
      cases hcell : v.toCell c target with
      | error problem =>
        have hrejection : rejection? d.schema target (f, v) = some problem := by
          simp [rejection?, hc, hcell]
        rw [hrejection]
        simp [put, hcell]
      | ok cell =>
        have hrejection : rejection? d.schema target (f, v) = none := by
          simp [rejection?, hc, hcell]
        obtain ⟨d₁, hput⟩ := exists_put (TableSchema.column?_eq_some_iff.1 hc).1 hcell
        have hrest := ih d₁
        rw [(put_cellAfter hc hput).1] at hrest
        rw [hrejection]
        dsimp only
        rwa [hput]

theorem toCell_of_no_rejection {e : Field × Value} {s : TableSchema}
    (hnone : entries.findSome? (rejection? s target) = none) (he : e ∈ entries)
    (hc : s.column? e.1.name = some c) : ∃ cell, e.2.toCell c target = .ok cell := by
  have := List.findSome?_eq_none_iff.1 hnone e he
  unfold rejection? at this
  rw [hc] at this
  cases hcell : e.2.toCell c target with
  | error problem => simp [hcell] at this
  | ok cell => exact ⟨cell, rfl⟩

/--
The values that come after one another leave the cell of the last one that is not missing.
-/
theorem foldl_cellAfter_eq_lastValue {cell : Option Cell}
    (h : ∀ e ∈ entries, e.1.name = c.name → ∃ cell, e.2.toCell c target = .ok cell) :
    entries.foldl (cellAfter c) cell
      =
    match lastValue? c.name entries with
    | some v => v.cellIn? c
    | none => cell := by
  induction entries generalizing cell with
  | nil => rfl
  | cons e entries ih =>
    rw [List.foldl_cons, ih fun d hd => h d (List.mem_cons_of_mem e hd), lastValue?_cons]
    cases lastValue? c.name entries with
    | some v => rfl
    | none =>
      dsimp only
      unfold cellAfter
      by_cases hname : e.1.name = c.name
      . obtain ⟨converted, hconverted⟩ := h e List.mem_cons_self hname
        rw [if_pos hname, Value.cellIn?_eq hconverted]
        cases converted with
        | none =>
          rw [Value.eq_null_of_toCell hconverted]
          simp [Value.isNull]
        | some converted =>
          rw [hname, Value.isNull_of_toCell hconverted]
          simp [Value.cellIn?_eq hconverted]
      . rw [if_neg hname]
        simp [hname]

end Draft

/-!
# Intents in any case
-/

namespace Intent

theorem ofName?_congr {s t : String} (h : sameLetters s t = true) : ofName? s = ofName? t := by
  have hletters : s.toList.map Char.toLower = t.toList.map Char.toLower := by
    simpa [sameLetters] using h
  unfold ofName? sameLetters
  rw [hletters]

theorem writeKind_of_sameLetters {kind : WriteKind} {name : String}
    (h : sameLetters kind.name name = true) :
    ∃ intent, ofName? name = some intent ∧ intent.writeKind = .ok kind := by
  rw [← ofName?_congr h]
  cases kind with
  | insert => exact ⟨.insert, by decide, rfl⟩
  | update => exact ⟨.update, by decide, rfl⟩
  | delete => exact ⟨.delete, by decide, rfl⟩
  | upsert => exact ⟨.upsert, by decide, rfl⟩

end Intent

/-!
# Planned rows
-/

namespace Row

variable {r : Row} {schema : RowSchema} {t : TableHandle} {dropUnknown : Bool} {kind : WriteKind}

/--
The first marker of the row names this kind of write, in any case of its letters.
-/
def AsksFor (r : Row) (kind : WriteKind) : Prop :=
  ∃ f name, r.entries.find? (·.1.name == markerField) = some (f, .string name)
    ∧ Intent.sameLetters kind.name name = true

/--
The fields of a planned row but for its first marker.
-/
def plannedEntries (r : Row) : List (Field × Value) :=
  r.entries.eraseP (·.1.name == markerField)

theorem entries_withoutMarker_eq (hschema : r.schema? = some schema) :
    r.withoutMarker.entries = r.plannedEntries :=
  entries_withoutField hschema markerField

theorem AsksFor.exists_schema (h : r.AsksFor kind) : ∃ schema, r.schema? = some schema := by
  obtain ⟨f, name, hfind, -⟩ := h
  unfold entries at hfind
  split at hfind
  . next schema hschema => exact ⟨schema, hschema⟩
  . contradiction

theorem AsksFor.writeKind_eq [Calendar] (h : r.AsksFor kind) : r.writeKind = .ok kind := by
  obtain ⟨schema, hschema⟩ := h.exists_schema
  obtain ⟨f, name, hfind, hname⟩ := h
  obtain ⟨intent, hintent, hkind⟩ := Intent.writeKind_of_sameLetters hname
  unfold writeKind Row.intent
  rw [fieldValue_eq hschema, hfind]
  dsimp only
  rw [hintent]
  exact hkind

theorem AsksFor.toWrite_eq [Calendar] (h : r.AsksFor kind) :
    r.toWrite t dropUnknown
      =
    match Draft.fill dropUnknown ⟨t.name, r.withoutMarker⟩ (.empty t.schema) r.plannedEntries with
    | .error e => .error e
    | .ok draft => .ok ⟨kind, t.name, draft⟩ := by
  obtain ⟨schema, hschema⟩ := h.exists_schema
  unfold toWrite
  rewrite [hschema, h.writeKind_eq, ← entries_withoutMarker_eq hschema]
  rfl

/--
The write holds what the row has for the table: in each column the cell of the last value that is
not missing, and the names of the fields that belong to no column, unless they are dropped.
-/
structure Fills (r : Row) (kind : WriteKind) (t : TableHandle) (dropUnknown : Bool) (w : Write) :
    Prop where
  kind_eq : w.kind = kind
  table_eq : w.table = t.name
  schema_eq : w.draft.schema = t.schema
  cells : List.Forall₂
    (fun c cell =>
      match Draft.lastValue? c.name r.plannedEntries with
      | some v => cell ≠ none ∧ v.toCell c ⟨t.name, r.withoutMarker⟩ = .ok cell
      | none => cell = none)
    t.schema.columns w.draft.cells
  unresolved_eq : w.draft.unresolved
    = if dropUnknown then [] else Draft.unknownNames t.schema r.plannedEntries

theorem fills_of_fill {d : Draft}
    (hnone : r.plannedEntries.findSome?
      (Draft.rejection? t.schema ⟨t.name, r.withoutMarker⟩) = none)
    (hfill : Draft.fill dropUnknown ⟨t.name, r.withoutMarker⟩ (.empty t.schema) r.plannedEntries
      = .ok d) :
    r.Fills kind t dropUnknown ⟨kind, t.name, d⟩ := by
  obtain ⟨hschema, hcells⟩ := Draft.fill_eq_ok hfill
  refine ⟨rfl, rfl, hschema, List.forall₂_iff_get.2 ⟨?_, ?_⟩, Draft.fill_unresolved hfill⟩
  . rw [d.fitColumns.length_eq, hschema]
    rfl
  . intro i hi hi'
    have hc : t.schema.columns[i]? = some t.schema.columns[i] := List.getElem?_eq_getElem hi
    have hmem := List.getElem_mem hi
    have hconverts : ∀ e ∈ r.plannedEntries, e.1.name = t.schema.columns[i].name →
        ∃ cell, e.2.toCell t.schema.columns[i] ⟨t.name, r.withoutMarker⟩ = .ok cell := by
      intro e he hname
      exact Draft.toCell_of_no_rejection hnone he
        (TableSchema.column?_eq_some_iff.2 ⟨hmem, hname.symm⟩)
    have hcell := hcells i _ hc
    rw [Draft.join_getElem?_empty, Draft.foldl_cellAfter_eq_lastValue hconverts,
      List.getElem?_eq_getElem hi'] at hcell
    cases hlast : Draft.lastValue? t.schema.columns[i].name r.plannedEntries with
    | none => simpa [hlast] using hcell
    | some v =>
      obtain ⟨e, he, hname, rfl, hnull⟩ := Draft.exists_of_lastValue? hlast
      obtain ⟨cell, hconverted⟩ := hconverts e he hname
      have heq : d.cells[i] = cell := by
        simpa [hlast, Value.cellIn?_eq hconverted] using hcell
      dsimp only [List.get_eq_getElem]
      rw [heq]
      refine ⟨?_, hconverted⟩
      rintro rfl
      exact hnull (Value.eq_null_of_toCell hconverted)

/--
The write of a planned row fails at the first field that its column does not take, and if there is
none it holds what the row has for the table.
-/
theorem AsksFor.toWrite_cases [Calendar] (h : r.AsksFor kind) (t : TableHandle) (dropUnknown : Bool) :
    match r.plannedEntries.findSome? (Draft.rejection? t.schema ⟨t.name, r.withoutMarker⟩) with
    | some e => r.toWrite t dropUnknown = .error e
    | none => ∃ w, r.toWrite t dropUnknown = .ok w ∧ r.Fills kind t dropUnknown w := by
  have hcases := Draft.fill_cases dropUnknown ⟨t.name, r.withoutMarker⟩ (.empty t.schema)
    r.plannedEntries
  rw [h.toWrite_eq]
  change match r.plannedEntries.findSome? (Draft.rejection? t.schema ⟨t.name, r.withoutMarker⟩) with
    | some e => _ = Except.error e
    | none => ∃ d, _ = Except.ok d at hcases
  cases hfirst : r.plannedEntries.findSome?
      (Draft.rejection? t.schema ⟨t.name, r.withoutMarker⟩) with
  | some e =>
    rw [hfirst] at hcases
    dsimp only at hcases ⊢
    rw [hcases]
  | none =>
    rw [hfirst] at hcases
    obtain ⟨d, hfill⟩ := hcases
    dsimp only
    rw [hfill]
    exact ⟨_, rfl, fills_of_fill hfirst hfill⟩

/-!
# Lists of planned rows
-/

theorem toWrites_eq_ok_iff [Calendar] {rows : List Row} {ws : List Write} :
    toWrites t dropUnknown rows = .ok ws
      ↔ List.Forall₂ (fun r w => r.toWrite t dropUnknown = .ok w) rows ws := by
  constructor
  . exact forall₂_of_toWrites
  . intro h
    induction h with
    | nil => rfl
    | cons hw _ ih => rw [toWrites, hw, ih]

theorem toWrites_cons_eq_error_iff [Calendar] {rows : List Row} {e : TransferError} :
    toWrites t dropUnknown (r :: rows) = .error e
      ↔ r.toWrite t dropUnknown = .error e
        ∨ (∃ w, r.toWrite t dropUnknown = .ok w) ∧ toWrites t dropUnknown rows = .error e := by
  rw [toWrites]
  cases r.toWrite t dropUnknown with
  | error e' => simp
  | ok w => cases toWrites t dropUnknown rows <;> simp

theorem toWrites_eq_error_iff [Calendar] {rows : List Row} {e : TransferError} :
    toWrites t dropUnknown rows = .error e
      ↔ ∃ before r after, rows = before ++ r :: after
        ∧ (∀ q ∈ before, ∃ w, q.toWrite t dropUnknown = .ok w)
        ∧ r.toWrite t dropUnknown = .error e := by
  induction rows with
  | nil => simp [toWrites]
  | cons r rows ih =>
    rw [toWrites_cons_eq_error_iff, ih]
    constructor
    . rintro (hr | ⟨hr, before, q, after, rfl, hbefore, hq⟩)
      . exact ⟨[], r, rows, rfl, by simp, hr⟩
      . exact ⟨r :: before, q, after, rfl, List.forall_mem_cons.2 ⟨hr, hbefore⟩, hq⟩
    . rintro ⟨before, q, after, hrows, hbefore, hq⟩
      cases before with
      | nil =>
        cases hrows
        exact .inl hq
      | cons p before =>
        cases hrows
        rw [List.forall_mem_cons] at hbefore
        exact .inr ⟨hbefore.1, before, q, after, rfl, hbefore.2, hq⟩

/--
The write of a planned row is decided by each of its fields on its own: it fails at the first one
that its column does not take, and otherwise holds the last value that the row has for each column.
The writes of a list are those of its rows in order, or the error of the first row that has none.
-/
theorem toWrites_reference [Calendar] (t : TableHandle) (dropUnknown : Bool) :
    (∀ (r : Row) (kind : WriteKind), r.AsksFor kind →
      match r.plannedEntries.findSome? (Draft.rejection? t.schema ⟨t.name, r.withoutMarker⟩) with
      | some e => r.toWrite t dropUnknown = .error e
      | none => ∃ w, r.toWrite t dropUnknown = .ok w ∧ r.Fills kind t dropUnknown w)
      ∧ ∀ rows : List Row,
        (∀ ws, toWrites t dropUnknown rows = .ok ws
          ↔ List.Forall₂ (fun r w => r.toWrite t dropUnknown = .ok w) rows ws)
        ∧ ∀ e, toWrites t dropUnknown rows = .error e
          ↔ ∃ before r after, rows = before ++ r :: after
            ∧ (∀ q ∈ before, ∃ w, q.toWrite t dropUnknown = .ok w)
            ∧ r.toWrite t dropUnknown = .error e := by
  refine ⟨?_, ?_⟩
  . intro r kind h
    exact h.toWrite_cases t dropUnknown
  . intro rows
    exact ⟨fun ws => toWrites_eq_ok_iff, fun e => toWrites_eq_error_iff⟩

/--
A planned item with its marker in the middle, two prices, the later one of them given before a third
that is missing, and a colour that no column has.
-/
def pricedItem : Row :=
  .ofFields
    [("id", .int64, .int64 7),
      ("price", .decimal 3 2, .decimal ⟨350, 3, 2, by decide, by decide, by decide, by decide⟩),
      (markerField, .string, .string "uPsErT"),
      ("price", .decimal 3 2, .decimal ⟨425, 3, 2, by decide, by decide, by decide, by decide⟩),
      ("colour", .string, .null),
      ("price", .decimal 3 2, .null)]

theorem toWrites_reference_pricedItem :
    pricedItem.AsksFor .upsert
      ∧ ∃ w, pricedItem.toWrite ⟨"1", "items", .items⟩ false = .ok w
        ∧ pricedItem.Fills .upsert ⟨"1", "items", .items⟩ false w
        ∧ w.draft.cells = [some (.int64 7), some (.decimal 425), none]
        ∧ w.draft.unresolved = ["colour"] := by
  have hasks : pricedItem.AsksFor .upsert :=
    ⟨.optional markerField .string, "uPsErT", rfl, by decide⟩
  have hnone : pricedItem.plannedEntries.findSome?
      (Draft.rejection? .items ⟨"items", pricedItem.withoutMarker⟩) = none := by rfl
  have hcases := (toWrites_reference ⟨"1", "items", .items⟩ false).1 pricedItem .upsert hasks
  rw [hnone] at hcases
  obtain ⟨w, hw, hfills⟩ := hcases
  have hcells : (pricedItem.toWrite ⟨"1", "items", .items⟩ false).map (·.draft.cells)
      = .ok [some (.int64 7), some (.decimal 425), none] := by rfl
  rw [hw] at hcells
  exact ⟨hasks, w, hw, hfills, Except.ok.inj hcells, hfills.unresolved_eq⟩

end Row

end KeyedTables
