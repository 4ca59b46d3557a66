import KeyedTables.Proofs.Store.MapStore
import KeyedTables.Proofs.Store.Rows

/-!
This module contains the proof that a store simulates a store of maps: over any run of calls it
gives the same answers and keeps the same rows. That keys are filed under their encodings makes no
difference because different keys have different encodings.
-/

namespace KeyedTables

/-!
# Cells
-/

theorem merge_eq_overlay (old new : Cells) : Store.merge old new = overlay old new := by
  unfold overlay
  induction old generalizing new with
  | nil => cases new <;> rfl
  | cons cell old ih =>
    cases new with
    | nil => simp [Store.merge, List.mapIdx_eq_zipIdx_map]
    | cons v new =>
      rw [Store.merge, ih, List.mapIdx_cons]
      cases v <;> simp

theorem missingColumn?_eq (s : TableSchema) (cells : Cells) :
    Store.missingColumn? s.columns cells = s.firstUnset? (fun c => !c.isNullable) cells := by
  unfold TableSchema.firstUnset?
  generalize s.columns = cs
  induction cs generalizing cells with
  | nil => rfl
  | cons c cs ih =>
    cases cells with
    | nil => rfl
    | cons cell cells =>
      rw [Store.missingColumn?, List.zip_cons_cons, List.find?_cons, Bool.and_comm]
      cases hunset : !c.isNullable && cell.isNone with
      | true => simp [hunset]
      | false => simp [hunset, ih]

/-!
# Tables
-/

/--
Both fail in the same way, or both succeed with results that are related.
-/
inductive Agree (r : α → β → Prop) : Except ε α → Except ε β → Prop where
  | error (e : ε) : Agree r (.error e) (.error e)
  | ok {a : α} {b : β} (h : r a b) : Agree r (.ok a) (.ok b)

namespace StoredTable.Simulates

variable {t : StoredTable} {m : MapTable} {key : List Cell}

theorem created (handle : TableHandle) : StoredTable.Simulates ⟨handle, .empty⟩ ⟨handle, ∅⟩ := by
  constructor
  case handle_eq => rfl
  case find?_encodeKey =>
    intro key _
    rw [Rows.find?_empty, Finmap.lookup_empty]
  case fitsKey =>
    intro key hkey
    exact absurd hkey Finmap.notMem_empty
  case eq_encodeKey =>
    intro x cells hx
    simp at hx

theorem insert (h : t.Simulates m) (hkey : m.handle.schema.FitsKey key) (cells : Cells) :
    StoredTable.Simulates { t with rows := t.rows.insert (Key.encodeKey key) cells }
      { m with rows := m.rows.insert key cells } := by
  constructor
  case handle_eq => exact h.handle_eq
  case find?_encodeKey =>
    intro other hother
    rw [Rows.find?_insert]
    split
    . next heq =>
      rw [(Key.encodeKey_inj hother hkey).1 heq, Finmap.lookup_insert]
    . next hne =>
      have : other ≠ key := by
        intro heq
        rw [heq] at hne
        exact hne rfl
      rw [Finmap.lookup_insert_of_ne _ this, h.find?_encodeKey other hother]
  case fitsKey =>
    intro other hother
    cases Finmap.mem_insert.1 hother with
    | inl heq => rwa [heq]
    | inr hmem => exact h.fitsKey other hmem
  case eq_encodeKey =>
    intro x row hx
    rw [Rows.find?_insert] at hx
    split at hx
    . next heq => exact ⟨key, hkey, heq⟩
    . exact h.eq_encodeKey x row hx

theorem erase (h : t.Simulates m) (hkey : m.handle.schema.FitsKey key) :
    StoredTable.Simulates { t with rows := t.rows.erase (Key.encodeKey key) }
      { m with rows := m.rows.erase key } := by
  constructor
  case handle_eq => exact h.handle_eq
  case find?_encodeKey =>
    intro other hother
    rw [Rows.find?_erase]
    split
    . next heq =>
      rw [(Key.encodeKey_inj hother hkey).1 heq, Finmap.lookup_erase]
    . next hne =>
      have : other ≠ key := by
        intro heq
        rw [heq] at hne
        exact hne rfl
      rw [Finmap.lookup_erase_ne this, h.find?_encodeKey other hother]
  case fitsKey =>
    intro other hother
    exact h.fitsKey other (Finmap.mem_erase.1 hother).2
  case eq_encodeKey =>
    intro x row hx
    rw [Rows.find?_erase] at hx
    split at hx
    . simp at hx
    . exact h.eq_encodeKey x row hx

theorem insertRow (h : t.Simulates m) (hkey : m.handle.schema.FitsKey key) (cells : Cells) :
    Agree (fun rows m' => m'.handle = m.handle ∧ StoredTable.Simulates { t with rows := rows } m')
      (Store.insertRow t.handle.schema t.rows (Key.encodeKey key) cells)
      (m.insertRow key cells) := by
  have hschema : t.handle.schema = m.handle.schema := by rw [h.handle_eq]
  unfold Store.insertRow MapTable.insertRow
  rw [missingColumn?_eq, hschema]
  cases m.handle.schema.firstUnset? (fun c => !c.isNullable) cells with
  | some name => exact .error _
  | none => exact .ok ⟨rfl, h.insert hkey cells⟩

theorem write (h : t.Simulates m) (kind : WriteKind) (hkey : m.handle.schema.FitsKey key)
    (cells : Cells) :
    Agree (fun rows m' => m'.handle = m.handle ∧ StoredTable.Simulates { t with rows := rows } m')
      (Store.applyToRows t.handle.schema t.rows kind (Key.encodeKey key) cells)
      (m.write kind key cells) := by
  unfold Store.applyToRows MapTable.write
  rw [h.find?_encodeKey key hkey]
  cases m.rows.lookup key with
  | some row =>
    cases kind with
    | insert => exact .error _
    | update =>
      dsimp only
      rw [merge_eq_overlay]
      exact .ok ⟨rfl, h.insert hkey _⟩
    | delete => exact .ok ⟨rfl, h.erase hkey⟩
    | upsert =>
      dsimp only
      rw [merge_eq_overlay]
      exact .ok ⟨rfl, h.insert hkey _⟩
  | none =>
    cases kind with
    | insert => exact h.insertRow hkey cells
    | update => exact .error _
    | delete => exact .error _
    | upsert => exact h.insertRow hkey cells

end StoredTable.Simulates

/-!
# Stores
-/

namespace Store.Simulates

variable {s : Store} {m : MapStore}

theorem empty : Store.empty.Simulates .empty := by
  constructor
  case tables =>
    intro name
    rw [Store.find?_empty, MapStore.empty, Finmap.lookup_empty]
    exact .none
  case name_eq =>
    intro name t h
    simp [MapStore.empty] at h
  case nextId_eq => rfl

theorem find?_eq_none_iff (h : s.Simulates m) (name : String) :
    s.find? name = none ↔ m.tables.lookup name = none := by
  have hrel := h.tables name
  generalize s.find? name = t? at hrel ⊢
  generalize m.tables.lookup name = u? at hrel ⊢
  cases hrel <;> simp

theorem exists_lookup (h : s.Simulates m) {name : String} {t : StoredTable}
    (ht : s.find? name = some t) : ∃ u, m.tables.lookup name = some u ∧ t.Simulates u := by
  have hrel := h.tables name
  rw [ht] at hrel
  generalize m.tables.lookup name = u? at hrel ⊢
  cases hrel with
  | some htu => exact ⟨_, rfl, htu⟩

/--
Both stores have a new table in the place of one name, and the other tables as before.
-/
theorem putTable (h : s.Simulates m) {s' : Store} {t : StoredTable} {u : MapTable}
    (htu : t.Simulates u)
    (hfind : ∀ name, s'.find? name = if name = u.handle.name then some t else s.find? name)
    (hnext : s'.nextId = (m.putTable u).size + 1) : s'.Simulates (m.putTable u) := by
  constructor
  case tables =>
    intro name
    rw [hfind, MapStore.lookup_putTable]
    split
    . exact .some htu
    . exact h.tables name
  case name_eq =>
    intro name v hv
    rw [MapStore.lookup_putTable] at hv
    split at hv
    . next hname =>
      simp only [Option.some.injEq] at hv
      rw [← hv, hname]
    . exact h.name_eq name v hv
  case nextId_eq => exact hnext

theorem createTable (h : s.Simulates m) (name : String) (schema : TableSchema) :
    Agree (fun p q => p.1 = q.1 ∧ Store.Simulates p.2 q.2) (s.createTable name schema)
      (m.createTable name schema) := by
  unfold Store.createTable MapStore.createTable
  cases hs : s.find? name with
  | some t =>
    obtain ⟨u, hu, _⟩ := h.exists_lookup hs
    rw [hu]
    exact .error _
  | none =>
    have hm := (h.find?_eq_none_iff name).1 hs
    rw [hm, ← h.nextId_eq]
    refine .ok ⟨rfl, h.putTable (.created _) ?_ ?_⟩
    . intro other
      exact Store.find?_append s _ _ other hs
    . rw [MapStore.size_putTable_of_none hm, ← h.nextId_eq]

theorem apply (h : s.Simulates m) {w : Write}
    (hw : ∀ t, s.find? w.table = some t → w.draft.schema = t.handle.schema) :
    Agree Store.Simulates (s.apply w) (m.apply w) := by
  unfold Store.apply MapStore.apply Store.lookup
  cases hs : s.find? w.table with
  | none =>
    rw [(h.find?_eq_none_iff w.table).1 hs]
    exact .error _
  | some t =>
    obtain ⟨u, hu, htu⟩ := h.exists_lookup hs
    have hschema : t.handle.schema = u.handle.schema := by rw [htu.handle_eq]
    rw [hu]
    -- the checks come in the same order on both sides
    cases w.draft.unresolved with
    | cons name names => exact .error _
    | nil =>
      dsimp only [List.head?_nil]
      cases hunset : u.handle.schema.firstUnset? Column.isKey w.draft.cells with
      | some name =>
        rw [Key.encode_of_firstUnset? (by rw [hschema, hunset])]
        exact .error _
      | none =>
        have hfit : FitColumns u.handle.schema.columns w.draft.cells := by
          rw [← hschema, ← hw t hs]
          exact w.draft.fitColumns
        have hkey := Key.keyOf_of_firstUnset? hfit hunset
        have hwrite := htu.write w.kind hkey.fitsKey w.draft.cells
        rw [hschema, Key.encode_eq hkey]
        rw [hschema] at hwrite
        dsimp only
        generalize Store.applyToRows _ _ _ _ _ = rows? at hwrite ⊢
        generalize u.write _ _ _ = u'? at hwrite ⊢
        cases hwrite with
        | error status => exact .error status
        | @ok rows u' hrows =>
          obtain ⟨hhandle, htu'⟩ := hrows
          have hname : u'.handle.name = w.table := by rw [hhandle, h.name_eq _ _ hu]
          refine .ok (h.putTable htu' ?_ ?_)
          . intro name
            rw [Store.find?_replaceRows, hs, hname]
            rfl
          . rw [MapStore.size_putTable_of_some (by rw [hname, hu]), ← h.nextId_eq]
            rfl

theorem call (h : s.Simulates m) {c : Call} (hc : s.Admits c) :
    (s.call c).1 = (m.call c).1 ∧ (s.call c).2.Simulates (m.call c).2 := by
  cases c with
  | createTable name schema =>
    have hcreate := h.createTable name schema
    unfold Store.call MapStore.call
    dsimp only
    generalize s.createTable name schema = r at hcreate ⊢
    generalize m.createTable name schema = r' at hcreate ⊢
    cases hcreate with
    | error e => exact ⟨rfl, h⟩
    | ok hok =>
      obtain ⟨hhandle, hstore⟩ := hok
      dsimp only
      exact ⟨by rw [hhandle], hstore⟩
  | apply w =>
    have happly := h.apply (w := w) fun t ht => hc.schema_eq ht
    unfold Store.call MapStore.call
    dsimp only
    generalize s.apply w = r at happly ⊢
    generalize m.apply w = r' at happly ⊢
    cases happly with
    | error status => exact ⟨rfl, h⟩
    | ok hok => exact ⟨rfl, hok⟩

theorem runCalls (h : s.Simulates m) {calls : List Call} (hcalls : s.AdmitsAll calls) :
    (runCalls Store.call s calls).1 = (runCalls MapStore.call m calls).1
      ∧ (runCalls Store.call s calls).2.Simulates (runCalls MapStore.call m calls).2 := by
  induction calls generalizing s m with
  | nil => exact ⟨rfl, h⟩
  | cons c calls ih =>
    obtain ⟨hreply, hnext⟩ := h.call hcalls.1
    obtain ⟨hreplies, hlast⟩ := ih hnext hcalls.2
    exact ⟨by simp only [KeyedTables.runCalls, hreply, hreplies], hlast⟩

end Store.Simulates

/--
A store gives the answers of a store of maps, call by call, and ends with the same tables and rows.
-/
theorem runCalls_eq_runCalls_maps {calls : List Call} (h : Store.empty.AdmitsAll calls) :
    (runCalls Store.call .empty calls).1 = (runCalls MapStore.call .empty calls).1
      ∧ (runCalls Store.call .empty calls).2.Simulates (runCalls MapStore.call .empty calls).2 :=
  Store.Simulates.empty.runCalls h

def placeCalls : List Call :=
  [.createTable "places" places,
    .apply (placeWrite .insert "a" 1),
    .apply (placeWrite .insert "a" 1),
    .apply (placeWrite .delete "b" 1),
    .apply ⟨.delete, "people", .empty places⟩]

theorem runCalls_placeCalls_eq_maps :
    Store.empty.AdmitsAll placeCalls
      ∧ (runCalls Store.call .empty placeCalls).1 = (runCalls MapStore.call .empty placeCalls).1
      ∧ (runCalls Store.call .empty placeCalls).2.Simulates
          (runCalls MapStore.call .empty placeCalls).2 := by
  have hadmits : Store.empty.AdmitsAll placeCalls :=
    ⟨trivial, .inl ⟨placesTable, _, rfl, rfl⟩, .inl ⟨placesTable, _, rfl, rfl⟩,
      .inl ⟨placesTable, _, rfl, rfl⟩, .inr rfl, trivial⟩
  exact ⟨hadmits, runCalls_eq_runCalls_maps hadmits⟩

end KeyedTables
