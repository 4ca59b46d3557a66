import KeyedTables.Proofs.Key.Encoding
import KeyedTables.Store.Basic

/-!
This module contains runs of calls to a store: how the writes in them come about, what they are
answered, and which calls a store admits.
-/

namespace KeyedTables

/-!
# Writes
-/

/--
A step of filling in a draft.
-/
inductive Edit where
  /-- Set the cell of a column. -/
  | set (name : String) (value : Cell)
  /-- Note a field that belongs to no column. -/
  | markUnresolved (name : String)

/--
The draft after a step. A cell that may not be set leaves it as it is.
-/
def Draft.edit (d : Draft) : Edit → Draft
  | .set name value =>
    match d.set name value with
    | .ok d => d
    | .error _ => d
  | .markUnresolved name => d.markUnresolved name

/--
A write to the table whose draft was filled in by these steps.
-/
def TableHandle.filledWrite (t : TableHandle) (kind : WriteKind) (edits : List Edit) : Write :=
  { t.newWrite kind with draft := edits.foldl Draft.edit (.empty t.schema) }

namespace Draft

theorem set_eq_ok {d d' : Draft} {name : String} {cell : Cell} (h : d.set name cell = .ok d') :
    d'.schema = d.schema
      ∧ ∃ i, d.schema.indexOf? name = some i ∧ d'.cells = d.cells.set i (some cell) := by
  unfold set at h
  split at h
  . contradiction
  . next i hi =>
    split at h
    . contradiction
    . split at h
      . rw [Except.ok.injEq] at h
        rw [← h]
        exact ⟨rfl, i, hi, rfl⟩
      . contradiction

theorem schema_edit (d : Draft) (e : Edit) : (d.edit e).schema = d.schema := by
  unfold edit
  split
  . split
    . next h => exact (set_eq_ok h).1
    . rfl
  . rfl

theorem schema_foldl_edit (d : Draft) (edits : List Edit) :
    (edits.foldl edit d).schema = d.schema := by
  induction edits generalizing d with
  | nil => rfl
  | cons e edits ih =>
    rw [List.foldl_cons, ih, schema_edit]

end Draft

theorem TableHandle.schema_filledWrite (t : TableHandle) (kind : WriteKind) (edits : List Edit) :
    (t.filledWrite kind edits).draft.schema = t.schema := by
  apply Draft.schema_foldl_edit

/--
The table of places in a store in which it is the first one.
-/
def placesTable : TableHandle := ⟨Store.tableId 1, "places", places⟩

def placeWrite (kind : WriteKind) (region : String) (id : Int32) : Write :=
  placesTable.filledWrite kind [.set "region" (.string region), .set "id" (.int32 id)]

/-!
# Calls
-/

inductive Call where
  | createTable (name : String) (schema : TableSchema)
  | apply (w : Write)

inductive Reply where
  | created (result : Except StoreError TableHandle)
  | applied (result : Except Status Unit)

/--
The answers to calls that are made one after the other, and the state after the last one.
-/
def runCalls (step : σ → Call → Reply × σ) (s : σ) : List Call → List Reply × σ
  | [] => ([], s)
  | c :: cs =>
    let (reply, s) := step s c
    let (replies, s) := runCalls step s cs
    (reply :: replies, s)

namespace Store

/--
The answer of a store to a call, and the store after it. A call that fails leaves the store as it
is.
-/
def call (s : Store) : Call → Reply × Store
  | .createTable name schema =>
    match s.createTable name schema with
    | .error e => (.created (.error e), s)
    | .ok (handle, s) => (.created (.ok handle), s)
  | .apply w =>
    match s.apply w with
    | .error status => (.applied (.error status), s)
    | .ok s => (.applied (.ok ()), s)

/--
A call as callers make them: a write either was filled in for the handle that the store has for its
table, or it names a table that the store does not have.
-/
def Admits (s : Store) : Call → Prop
  | .createTable _ _ => True
  | .apply w =>
    (∃ t edits, s.openTable w.table = .ok t ∧ w = t.filledWrite w.kind edits)
      ∨ s.openTable w.table = .error (.tableNotFound w.table)

/--
All calls are such as callers make them, each for the store that the ones before it left.
-/
def AdmitsAll (s : Store) : List Call → Prop
  | [] => True
  | c :: cs => s.Admits c ∧ (s.call c).2.AdmitsAll cs

/--
The draft of an admitted write has the schema of the table that it is for.
-/
theorem Admits.schema_eq {s : Store} {w : Write} (h : s.Admits (.apply w)) {t : StoredTable}
    (ht : s.find? w.table = some t) : w.draft.schema = t.handle.schema := by
  have hopen : s.openTable w.table = .ok t.handle := by simp [openTable, lookup, ht]
  cases h with
  | inl h =>
    obtain ⟨handle, edits, hhandle, hw⟩ := h
    have : t.handle = handle := by simpa [hopen] using hhandle
    rw [hw, this]
    apply TableHandle.schema_filledWrite
  | inr h => simp [hopen] at h

end Store

end KeyedTables
