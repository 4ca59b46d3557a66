import Mathlib.Data.Finmap
import KeyedTables.Proofs.Key.Encoding
import KeyedTables.Proofs.Store.Calls

/-!
This module contains stores of maps, against which stores are measured. Such a store has a finite
map from names to tables, and each of these a finite map from keys, as lists of cells, to rows.
There are no encoded keys in it, and no rows in any order.
-/

namespace KeyedTables

/--
A row with the cells of another one that are set put over its own.
-/
def overlay (old new : Cells) : Cells :=
  old.mapIdx fun i cell =>
    match new[i]? with
    | some (some v) => some v
    | _ => cell

/--
A table with a map from keys to rows.
-/
structure MapTable where
  handle : TableHandle
  rows : Finmap fun _ : List Cell => Cells

namespace MapTable

/--
The table with a new row, in which no column may be missing that is not nullable.
-/
def insertRow (t : MapTable) (key : List Cell) (cells : Cells) : Except Status MapTable :=
  match t.handle.schema.firstUnset? (fun c => !c.isNullable) cells with
  | some name => .error ⟨.invalidArgument, "column '" ++ name ++ "' is not nullable"⟩
  | none => .ok { t with rows := t.rows.insert key cells }

/--
The table after a write to the row with this key.
-/
def write (t : MapTable) (kind : WriteKind) (key : List Cell) (cells : Cells) :
    Except Status MapTable :=
  match t.rows.lookup key with
  | some row =>
    match kind with
    | .insert => .error ⟨.alreadyPresent, "key already present"⟩
    | .update | .upsert => .ok { t with rows := t.rows.insert key (overlay row cells) }
    | .delete => .ok { t with rows := t.rows.erase key }
  | none =>
    match kind with
    | .insert | .upsert => t.insertRow key cells
    | .update | .delete => .error ⟨.notFound, "key not found"⟩

end MapTable

/--
A store with a map from names to tables.
-/
structure MapStore where
  tables : Finmap fun _ : String => MapTable

namespace MapStore

def empty : MapStore := ⟨∅⟩

def size (s : MapStore) : Nat :=
  s.tables.keys.card

def putTable (s : MapStore) (t : MapTable) : MapStore :=
  ⟨s.tables.insert t.handle.name t⟩

@[simp]
theorem keys_putTable (s : MapStore) (t : MapTable) :
    (s.putTable t).tables.keys = insert t.handle.name s.tables.keys := by
  ext name
  simp [putTable, Finmap.mem_keys, Finmap.mem_insert]

theorem size_putTable_of_none {s : MapStore} {t : MapTable}
    (h : s.tables.lookup t.handle.name = none) : (s.putTable t).size = s.size + 1 := by
  unfold size
  rw [keys_putTable, Finset.card_insert_of_notMem]
  rwa [Finmap.mem_keys, ← Finmap.lookup_eq_none]

theorem size_putTable_of_some {s : MapStore} {t u : MapTable}
    (h : s.tables.lookup t.handle.name = some u) : (s.putTable t).size = s.size := by
  unfold size
  rw [keys_putTable, Finset.insert_eq_of_mem]
  exact Finmap.mem_keys.2 (Finmap.mem_of_lookup_eq_some h)

theorem lookup_putTable (s : MapStore) (t : MapTable) (name : String) :
    (s.putTable t).tables.lookup name
      =
    if name = t.handle.name then some t else s.tables.lookup name := by
  unfold putTable
  split
  . next h => rw [h, Finmap.lookup_insert]
  . next h => rw [Finmap.lookup_insert_of_ne _ h]

/--
Create a table without rows. Tables are numbered from 1 in the order in which they are created, and
the number is the identity of the table.
-/
def createTable (s : MapStore) (name : String) (schema : TableSchema) :
    Except StoreError (TableHandle × MapStore) :=
  match s.tables.lookup name with
  | some _ => .error (.tableExists name)
  | none =>
    let handle : TableHandle := ⟨Store.tableId (s.size + 1), name, schema⟩
    .ok (handle, s.putTable ⟨handle, ∅⟩)

/--
Apply a write, unless something is wrong with it: its table does not exist, it has a field that
belongs to no column, a key cell is unset, or the row with its key does not allow it.
-/
def apply (s : MapStore) (w : Write) : Except Status MapStore :=
  match s.tables.lookup w.table with
  | none => .error ⟨.notFound, "table not found: " ++ w.table⟩
  | some t =>
    match w.draft.unresolved.head? with
    | some name => .error ⟨.invalidArgument, "unknown column: " ++ name⟩
    | none =>
      match t.handle.schema.firstUnset? Column.isKey w.draft.cells with
      | some name => .error ⟨.invalidArgument, "missing key column: " ++ name⟩
      | none =>
        match t.write w.kind (t.handle.schema.keyOf w.draft.cells) w.draft.cells with
        | .error status => .error status
        | .ok t => .ok (s.putTable t)

/--
The answer of the store to a call, and the store after it. A call that fails leaves the store as it
is.
-/
def call (s : MapStore) : Call → Reply × MapStore
  | .createTable name schema =>
    match s.createTable name schema with
    | .error e => (.created (.error e), s)
    | .ok (handle, s) => (.created (.ok handle), s)
  | .apply w =>
    match s.apply w with
    | .error status => (.applied (.error status), s)
    | .ok s => (.applied (.ok ()), s)

end MapStore

/-!
# Simulation
-/

/--
A table has the same rows as one with a map: each is filed under the encoding of its key, and there
are no others.
-/
structure StoredTable.Simulates (t : StoredTable) (m : MapTable) : Prop where
  handle_eq : t.handle = m.handle
  find?_encodeKey : ∀ key, m.handle.schema.FitsKey key →
    t.rows.find? (Key.encodeKey key) = m.rows.lookup key
  fitsKey : ∀ key ∈ m.rows, m.handle.schema.FitsKey key
  eq_encodeKey : ∀ x cells, t.rows.find? x = some cells →
    ∃ key, m.handle.schema.FitsKey key ∧ x = Key.encodeKey key

/--
A store has the same tables as one of maps, with the same rows.
-/
structure Store.Simulates (s : Store) (m : MapStore) : Prop where
  tables : ∀ name, Option.Rel StoredTable.Simulates (s.find? name) (m.tables.lookup name)
  name_eq : ∀ name t, m.tables.lookup name = some t → t.handle.name = name
  nextId_eq : s.nextId = m.size + 1

end KeyedTables
