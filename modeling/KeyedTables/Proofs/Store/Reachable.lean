import KeyedTables.Proofs.Store.Simulation

/-!
This module contains what holds of the rows of every store that callers can arrive at. A row has one
cell for each column, such as may stand there, no cell is missing that may not be, and the row is
filed under the encoding of its own key, whatever was written over it since it was filed.
-/

namespace KeyedTables

/-!
# Cells by position
-/

theorem fitColumns_iff {cs : List Column} {cells : Cells} :
    FitColumns cs cells ↔
      cells.length = cs.length
        ∧ ∀ (i : Nat) (c : Column) (v : Cell), cs[i]? = some c → cells[i]?.join = some v →
          v.fits c.type = true := by
  induction cs generalizing cells with
  | nil => cases cells <;> simp [FitColumns]
  | cons c cs ih =>
    cases cells with
    | nil => simp [FitColumns]
    | cons cell cells =>
      rw [FitColumns, ih]
      constructor
      . rintro ⟨hcell, hlength, hcells⟩
        refine ⟨by simp [hlength], ?_⟩
        intro i d v hd hv
        cases i with
        | zero => simp_all
        | succ i => exact hcells i d v (by simpa using hd) (by simpa using hv)
      . rintro ⟨hlength, hcells⟩
        refine ⟨?_, by simpa using hlength, ?_⟩
        . intro v hv
          exact hcells 0 c v rfl (by simp [hv])
        . intro i d v hd hv
          exact hcells (i + 1) d v (by simpa using hd) (by simpa using hv)

@[simp]
theorem length_merge (old new : Cells) : (Store.merge old new).length = old.length := by
  rw [merge_eq_overlay]
  simp [overlay]

theorem join_getElem?_merge {old new : Cells} (hlength : new.length = old.length) (i : Nat) :
    (Store.merge old new)[i]?.join = (new[i]?.join <|> old[i]?.join) := by
  induction old generalizing new i with
  | nil =>
    have : new = [] := by simpa using hlength
    simp [this, Store.merge]
  | cons cell old ih =>
    cases new with
    | nil => simp at hlength
    | cons v new =>
      cases i with
      | zero => simp [Store.merge]
      | succ i => simpa [Store.merge] using ih (by simpa using hlength) i

theorem FitColumns.merge {cs : List Column} {old new : Cells} (hold : FitColumns cs old)
    (hnew : FitColumns cs new) : FitColumns cs (Store.merge old new) := by
  have hlength : new.length = old.length := by rw [hnew.length_eq, hold.length_eq]
  rw [fitColumns_iff] at *
  refine ⟨by simp [hold.1], ?_⟩
  intro i c v hc hv
  rw [join_getElem?_merge hlength] at hv
  cases hcell : new[i]?.join with
  | some w =>
    have : w = v := by simpa [hcell] using hv
    exact hnew.2 i c v hc (by rw [hcell, this])
  | none => exact hold.2 i c v hc (by simpa [hcell] using hv)

namespace TableSchema

theorem firstUnset?_eq_none_iff {s : TableSchema} {kind : Column → Bool} {cells : Cells} :
    s.firstUnset? kind cells = none ↔
      ∀ (i : Nat) (c : Column), s.columns[i]? = some c → kind c = true →
        cells[i]? ≠ some none := by
  unfold firstUnset?
  rw [Option.map_eq_none_iff, List.find?_eq_none]
  constructor
  . intro h i c hc hkind hcell
    have hmem : (c, none) ∈ s.columns.zip cells := by
      rw [List.mem_iff_getElem?]
      exact ⟨i, by rw [List.getElem?_zip_eq_some]; exact ⟨hc, hcell⟩⟩
    simpa [hkind] using h _ hmem
  . rintro h ⟨c, cell⟩ hmem
    obtain ⟨i, hi⟩ := List.mem_iff_getElem?.1 hmem
    rw [List.getElem?_zip_eq_some] at hi
    cases cell with
    | some v => simp
    | none =>
      cases hkind : kind c with
      | false => simp [hkind]
      | true => exact absurd hi.2 (h i c hi.1 hkind)

theorem firstUnset?_merge {s : TableSchema} {kind : Column → Bool} {old new : Cells}
    (hlength : new.length = old.length) (h : s.firstUnset? kind old = none) :
    s.firstUnset? kind (Store.merge old new) = none := by
  rw [firstUnset?_eq_none_iff] at *
  intro i c hc hkind hcell
  have hi : i < old.length := by
    have := (List.getElem?_eq_some_iff.1 hcell).1
    simpa using this
  have hjoin := join_getElem?_merge hlength i
  rw [hcell, List.getElem?_eq_getElem hi] at hjoin
  apply h i c hc hkind
  rw [List.getElem?_eq_getElem hi]
  cases hold : old[i] with
  | none => rfl
  | some v => cases hnew : new[i]?.join <;> simp [hnew, hold] at hjoin

/--
A write that sets the whole key leaves nothing of the key that was there.
-/
theorem keyCells_merge {s : TableSchema} {old new : Cells} {key : List Cell}
    (hold : FitColumns s.columns old) (hnew : FitColumns s.columns new)
    (h : s.keyCells new = key.map some) : s.keyCells (Store.merge old new) = s.keyCells new := by
  unfold keyCells at *
  generalize s.columns = cs at *
  induction cs generalizing old new key with
  | nil => simp
  | cons c cs ih =>
    cases old with
    | nil => exact hold.elim
    | cons cell old =>
      cases new with
      | nil => exact hnew.elim
      | cons v new =>
        cases hc : c.isKey with
        | false =>
          simp only [List.zip_cons_cons, hc, Bool.false_eq_true, not_false_eq_true,
            List.filter_cons_of_neg, Store.merge] at h ⊢
          exact ih hold.2 hnew.2 h
        | true =>
          simp only [List.zip_cons_cons, hc, List.filter_cons_of_pos, List.map_cons,
            Store.merge] at h ⊢
          cases key with
          | nil => simp at h
          | cons w key =>
            simp only [List.map_cons, List.cons.injEq] at h
            rw [ih hold.2 hnew.2 h.2, h.1]
            rfl

/-!
# Rows
-/

/--
The row may be filed under `x`: it has a cell for each column, such as may stand there, none is
missing that may not be, and `x` is the encoding of its key.
-/
structure Files (s : TableSchema) (x : List UInt8) (cells : Cells) : Prop where
  fitColumns : FitColumns s.columns cells
  complete : s.firstUnset? (fun c => !c.isNullable) cells = none
  encode_eq : Key.encode s cells = .ok x

variable {s : TableSchema} {x : List UInt8} {cells old : Cells}

theorem keyOf_of_encode (hfit : FitColumns s.columns cells) (h : Key.encode s cells = .ok x) :
    s.KeyOf cells (s.keyOf cells) ∧ x = Key.encodeKey (s.keyOf cells) := by
  cases hunset : s.firstUnset? Column.isKey cells with
  | some name =>
    rw [Key.encode_of_firstUnset? hunset] at h
    contradiction
  | none =>
    have hkey := Key.keyOf_of_firstUnset? hfit hunset
    refine ⟨hkey, ?_⟩
    rw [Key.encode_eq hkey, Except.ok.injEq] at h
    exact h.symm

theorem Files.keyOf (h : s.Files x cells) : s.KeyOf cells (s.keyOf cells) :=
  (keyOf_of_encode h.fitColumns h.encode_eq).1

theorem Files.eq_encodeKey (h : s.Files x cells) : x = Key.encodeKey (s.keyOf cells) :=
  (keyOf_of_encode h.fitColumns h.encode_eq).2

theorem Files.merge (h : s.Files x old) (hfit : FitColumns s.columns cells)
    (hx : Key.encode s cells = .ok x) : s.Files x (Store.merge old cells) := by
  obtain ⟨hkey, hx'⟩ := keyOf_of_encode hfit hx
  have hlength : cells.length = old.length := by rw [hfit.length_eq, h.fitColumns.length_eq]
  have hmerged : s.KeyOf (Store.merge old cells) (s.keyOf cells) := by
    constructor
    case keyCells_eq =>
      rw [keyCells_merge h.fitColumns hfit hkey.keyCells_eq]
      exact hkey.keyCells_eq
    case fitsKey => exact hkey.fitsKey
  constructor
  case fitColumns => exact h.fitColumns.merge hfit
  case complete => exact firstUnset?_merge hlength h.complete
  case encode_eq => rw [Key.encode_eq hmerged, hx']

end TableSchema

/-!
# Tables and stores
-/

namespace Rows

theorem mem_of_find? {rows : Rows} {key : List UInt8} {cells : Cells}
    (h : rows.find? key = some cells) : (key, cells) ∈ rows.entries := by
  unfold find? at h
  rw [Option.map_eq_some_iff] at h
  obtain ⟨e, he, rfl⟩ := h
  have hkey : e.1 = key := by simpa using List.find?_some he
  rw [← hkey]
  exact List.mem_of_find?_eq_some he

end Rows

/--
All rows of the table may be filed as they are.
-/
def StoredTable.Sound (t : StoredTable) : Prop :=
  ∀ e ∈ t.rows.entries, t.handle.schema.Files e.1 e.2

namespace StoredTable.Sound

variable {t : StoredTable} {key : List UInt8} {cells : Cells} {rows : Rows}

theorem insert (h : t.Sound) (hfiles : t.handle.schema.Files key cells) :
    StoredTable.Sound { t with rows := t.rows.insert key cells } := by
  intro e he
  rcases Rows.mem_insertEntry he with rfl | he
  . exact hfiles
  . exact h e he

theorem insertRow (h : t.Sound) (hfit : FitColumns t.handle.schema.columns cells)
    (hkey : Key.encode t.handle.schema cells = .ok key)
    (hrows : Store.insertRow t.handle.schema t.rows key cells = .ok rows) :
    StoredTable.Sound { t with rows := rows } := by
  unfold Store.insertRow at hrows
  split at hrows
  . contradiction
  . next hcomplete =>
    rw [Except.ok.injEq] at hrows
    rw [missingColumn?_eq] at hcomplete
    rw [← hrows]
    exact h.insert ⟨hfit, hcomplete, hkey⟩

theorem applyToRows (h : t.Sound) (hfit : FitColumns t.handle.schema.columns cells)
    (hkey : Key.encode t.handle.schema cells = .ok key) (kind : WriteKind)
    (hrows : Store.applyToRows t.handle.schema t.rows kind key cells = .ok rows) :
    StoredTable.Sound { t with rows := rows } := by
  have hmerge : ∀ old, t.rows.find? key = some old →
      StoredTable.Sound { t with rows := t.rows.insert key (Store.merge old cells) } := by
    intro old hold
    exact h.insert ((h _ (Rows.mem_of_find? hold)).merge hfit hkey)
  unfold Store.applyToRows at hrows
  cases hfind : t.rows.find? key with
  | none =>
    cases kind <;> simp only [hfind, reduceCtorEq] at hrows
    case insert => exact h.insertRow hfit hkey hrows
    case upsert => exact h.insertRow hfit hkey hrows
  | some old =>
    cases kind <;> simp only [hfind, reduceCtorEq, Except.ok.injEq] at hrows
    case update =>
      rw [← hrows]
      exact hmerge old hfind
    case upsert =>
      rw [← hrows]
      exact hmerge old hfind
    case delete =>
      rw [← hrows]
      intro e he
      exact h e (List.mem_of_mem_filter he)

theorem files_of_mem (h : t.Sound) (hmem : cells ∈ t.rows.toList) :
    ∃ x, t.handle.schema.Files x cells := by
  obtain ⟨e, he, rfl⟩ := List.mem_map.1 hmem
  exact ⟨e.1, h e he⟩

theorem pairwise_order (h : t.Sound) :
    t.rows.toList.Pairwise fun a b =>
      Key.order (t.handle.schema.keyOf a) (t.handle.schema.keyOf b) = .lt := by
  unfold Rows.toList
  rw [List.pairwise_map]
  refine t.rows.ascending.imp_of_mem ?_
  intro a b ha hb hlt
  have hcompare := Key.compare_encodeKey (h a ha).keyOf.fitsKey (h b hb).keyOf.fitsKey
  rw [← (h a ha).eq_encodeKey, ← (h b hb).eq_encodeKey] at hcompare
  rw [← hcompare, ← Key.lt_iff_compare_eq_lt]
  exact hlt

end StoredTable.Sound

namespace Store

variable {s s' : Store} {w : Write}

theorem name_of_find? {name : String} {t : StoredTable} (h : s.find? name = some t) :
    t.handle.name = name := by
  simpa using List.find?_some h

theorem find?_of_openTable {name : String} {t : TableHandle} (h : s.openTable name = .ok t) :
    ∃ rows, s.find? name = some ⟨t, rows⟩ := by
  unfold openTable lookup at h
  cases hfind : s.find? name with
  | none => simp [hfind] at h
  | some stored =>
    have : stored.handle = t := by simpa [hfind] using h
    exact ⟨stored.rows, by rw [← this]⟩

theorem openTable_of_find? {name : String} {t : StoredTable} (h : s.find? name = some t) :
    s.openTable name = .ok t.handle := by
  simp [openTable, lookup, h]

/--
All rows of all tables may be filed as they are.
-/
def Sound (s : Store) : Prop :=
  ∀ name t, s.find? name = some t → t.Sound

/--
The draft of the write was made for the table that it is for, if there is one.
-/
def Suits (s : Store) (w : Write) : Prop :=
  ∀ t, s.find? w.table = some t → w.draft.schema = t.handle.schema

/--
A write that is taken finds its table, belongs to its columns, has a key, and changes the rows.
-/
theorem exists_of_apply_eq_ok (h : s.apply w = .ok s') :
    ∃ t key rows, s.find? w.table = some t ∧ w.draft.unresolved = []
      ∧ Key.encode t.handle.schema w.draft.cells = .ok key
      ∧ applyToRows t.handle.schema t.rows w.kind key w.draft.cells = .ok rows
      ∧ s' = s.replaceRows w.table rows := by
  unfold apply lookup at h
  cases hfind : s.find? w.table with
  | none => simp [hfind] at h
  | some t =>
    cases hunresolved : w.draft.unresolved with
    | cons name names => simp [hfind, hunresolved] at h
    | nil =>
      cases hkey : Key.encode t.handle.schema w.draft.cells with
      | error name => simp [hfind, hunresolved, hkey] at h
      | ok key =>
        cases hrows : applyToRows t.handle.schema t.rows w.kind key w.draft.cells with
        | error status => simp [hfind, hunresolved, hkey, hrows] at h
        | ok rows =>
          refine ⟨t, key, rows, rfl, rfl, hkey, hrows, ?_⟩
          simpa [hfind, hunresolved, hkey, hrows] using h.symm

/--
Writes leave the tables of a store as they are, except for their rows.
-/
theorem openTable_applied (s : Store) (w : Write) (name : String) :
    (s.applied w).openTable name = s.openTable name := by
  cases happly : s.apply w with
  | error status => rw [applied_of_error happly]
  | ok s' =>
    obtain ⟨t, key, rows, hfind, -, -, -, hs'⟩ := exists_of_apply_eq_ok happly
    rw [applied_of_ok happly, hs']
    unfold openTable lookup
    rw [find?_replaceRows]
    by_cases hname : name = w.table
    . simp [hname, hfind]
    . rw [if_neg hname]

theorem openTable_appliedAll (s : Store) (ws : List Write) (name : String) :
    (s.appliedAll ws).openTable name = s.openTable name := by
  induction ws generalizing s with
  | nil => rfl
  | cons w ws ih => rw [appliedAll_cons, ih, openTable_applied]

theorem sound_empty : Store.empty.Sound := by
  intro name t h
  simp at h

theorem Sound.createTable (h : s.Sound) {name : String} {schema : TableSchema}
    {handle : TableHandle} (hcreate : s.createTable name schema = .ok (handle, s')) :
    s'.Sound := by
  unfold Store.createTable at hcreate
  split at hcreate
  . contradiction
  . next hfree =>
    simp only [Except.ok.injEq, Prod.mk.injEq] at hcreate
    intro other t ht
    rw [← hcreate.2, find?_append _ _ _ _ hfree] at ht
    split at ht
    . rw [Option.some.injEq] at ht
      rw [← ht]
      intro e he
      contradiction
    . exact h other t ht

theorem Sound.apply (h : s.Sound) (hw : s.Suits w) (happly : s.apply w = .ok s') : s'.Sound := by
  obtain ⟨t, key, rows, hfind, -, hkey, hrows, hs'⟩ := exists_of_apply_eq_ok happly
  have hfit : FitColumns t.handle.schema.columns w.draft.cells := by
    rw [← hw t hfind]
    exact w.draft.fitColumns
  intro name u hu
  rw [hs', find?_replaceRows] at hu
  split at hu
  . rw [hfind, Option.map_some, Option.some.injEq] at hu
    rw [← hu]
    exact (h _ t hfind).applyToRows hfit hkey w.kind hrows
  . exact h name u hu

theorem Sound.call (h : s.Sound) {c : Call} (hc : s.Admits c) : (s.call c).2.Sound := by
  unfold Store.call
  cases c with
  | createTable name schema =>
    dsimp only
    split
    . exact h
    . next hcreate => exact h.createTable hcreate
  | apply w =>
    dsimp only
    split
    . exact h
    . next happly => exact h.apply (fun t ht => hc.schema_eq ht) happly

/--
The stores that callers can arrive at, starting without tables.
-/
inductive Reachable : Store → Prop where
  | empty : Reachable .empty
  | call {s : Store} (h : Reachable s) {c : Call} (hc : s.Admits c) : Reachable (s.call c).2

theorem Reachable.sound (h : s.Reachable) : s.Sound := by
  induction h with
  | empty => exact sound_empty
  | call _ hc ih => exact ih.call hc

theorem reachable_runCalls (h : s.Reachable) {calls : List Call} (hcalls : s.AdmitsAll calls) :
    (runCalls Store.call s calls).2.Reachable := by
  induction calls generalizing s with
  | nil => exact h
  | cons c calls ih => exact ih (h.call hcalls.1) hcalls.2

/-!
# The names of tables
-/

def names (s : Store) : List String :=
  s.tables.map (·.handle.name)

theorem handles_replaceRows (s : Store) (name : String) (rows : Rows) :
    (s.replaceRows name rows).tables.map (·.handle) = s.tables.map (·.handle) := by
  unfold replaceRows
  rw [List.map_map]
  apply List.map_congr_left
  intro t _
  dsimp only [Function.comp_apply]
  split <;> rfl

theorem names_replaceRows (s : Store) (name : String) (rows : Rows) :
    (s.replaceRows name rows).names = s.names := by
  have hhandles := congrArg (List.map (·.name)) (handles_replaceRows s name rows)
  rwa [List.map_map, List.map_map] at hhandles

theorem nodup_names_call (h : s.names.Nodup) (c : Call) : (s.call c).2.names.Nodup := by
  unfold Store.call
  cases c with
  | createTable name schema =>
    dsimp only
    split
    . exact h
    . next hcreate =>
      unfold createTable at hcreate
      split at hcreate
      . contradiction
      . next hfree =>
        simp only [Except.ok.injEq, Prod.mk.injEq] at hcreate
        have hnew : name ∉ s.names := by
          simpa [find?, names] using hfree
        rw [← hcreate.2]
        simpa [names] using List.nodup_append_comm.1 (List.nodup_cons.2 ⟨hnew, h⟩)
  | apply w =>
    dsimp only
    split
    . exact h
    . next happly =>
      obtain ⟨-, -, rows, -, -, -, -, rfl⟩ := exists_of_apply_eq_ok happly
      rwa [names_replaceRows]

theorem Reachable.nodup_names (h : s.Reachable) : s.names.Nodup := by
  induction h with
  | empty => exact List.nodup_nil
  | call _ _ ih => exact nodup_names_call ih _

theorem Reachable.find?_of_mem (h : s.Reachable) {t : StoredTable} (ht : t ∈ s.tables) :
    s.find? t.handle.name = some t := by
  cases hfind : s.find? t.handle.name with
  | none =>
    unfold find? at hfind
    rw [List.find?_eq_none] at hfind
    exact absurd (by simp) (hfind t ht)
  | some u =>
    have hname := name_of_find? hfind
    have hu : u ∈ s.tables := List.mem_of_find?_eq_some hfind
    rw [List.inj_on_of_nodup_map h.nodup_names hu ht hname]

end Store

end KeyedTables
