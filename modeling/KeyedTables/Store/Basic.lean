import KeyedTables.Store.Key
import KeyedTables.Store.Rows
import KeyedTables.Table.Write
import KeyedTables.Text.Hex

/-!
This module contains stores, sets of tables that take writes one at a time.
-/

namespace KeyedTables

structure StoredTable where
  handle : TableHandle
  rows : Rows

/--
The tables of a store in the order in which they were created, and the number that the next one gets
as its identity.
-/
structure Store where
  tables : List StoredTable := []
  nextId : Nat := 1

namespace Store

def empty : Store := {}

def find? (s : Store) (name : String) : Option StoredTable :=
  s.tables.find? (·.handle.name == name)

/--
The table with this name, or the error that there is none.
-/
def lookup (s : Store) (name : String) : Except StoreError StoredTable :=
  match s.find? name with
  | some t => .ok t
  | none => .error (.tableNotFound name)

def openTable (s : Store) (name : String) : Except StoreError TableHandle :=
  match s.lookup name with
  | .ok t => .ok t.handle
  | .error e => .error e

/--
The identity of a table: its number in 32 hexadecimal digits.
-/
def tableId (n : Nat) : String :=
  Text.hex 32 n

/--
Create a table without rows. The name must be free.
-/
def createTable (s : Store) (name : String) (schema : TableSchema) :
    Except StoreError (TableHandle × Store) :=
  match s.find? name with
  | some _ => .error (.tableExists name)
  | none =>
    let handle : TableHandle := ⟨tableId s.nextId, name, schema⟩
    .ok (handle, ⟨s.tables ++ [⟨handle, .empty⟩], s.nextId + 1⟩)

/--
Put rows in place of those of the table with this name.
-/
def replaceRows (s : Store) (name : String) (rows : Rows) : Store :=
  { s with
    tables := s.tables.map fun t => if t.handle.name == name then { t with rows := rows } else t }

/-!
# Writing
-/

/--
The first column that may not be missing but is.
-/
def missingColumn? : List Column → Cells → Option String
  | c :: cs, cell :: cells =>
    if cell.isNone && !c.isNullable then some c.name else missingColumn? cs cells
  | _, _ => none

/--
The cells of a row with those that a write sets put over them.
-/
def merge : Cells → Cells → Cells
  | old :: olds, new :: news => (new <|> old) :: merge olds news
  | olds, [] => olds
  | [], _ => []

/--
The status of a write that lacks something.
-/
def invalid (message : String) : Status :=
  ⟨.invalidArgument, message⟩

/--
File a row under a key that is absent. No column that may not be missing is missing.
-/
def insertRow (schema : TableSchema) (rows : Rows) (key : List UInt8) (cells : Cells) :
    Except Status Rows :=
  match missingColumn? schema.columns cells with
  | some name => .error (invalid ("column '" ++ name ++ "' is not nullable"))
  | none => .ok (rows.insert key cells)

/--
The rows of a table after a write to the row that is filed under `key`.
-/
def applyToRows (schema : TableSchema) (rows : Rows) (kind : WriteKind) (key : List UInt8)
    (cells : Cells) : Except Status Rows :=
  match kind, rows.find? key with
  | .insert, some _ => .error ⟨.alreadyPresent, "key already present"⟩
  | .insert, none => insertRow schema rows key cells
  | .update, some old => .ok (rows.insert key (merge old cells))
  | .update, none => .error ⟨.notFound, "key not found"⟩
  | .upsert, some old => .ok (rows.insert key (merge old cells))
  | .upsert, none => insertRow schema rows key cells
  | .delete, some _ => .ok (rows.erase key)
  | .delete, none => .error ⟨.notFound, "key not found"⟩

/--
Apply a write. It is turned down if its table does not exist, if it has a field that belongs to no
column, if a cell of its key is missing, or if the row that it is for does not allow it.
-/
def apply (s : Store) (w : Write) : Except Status Store :=
  match s.lookup w.table with
  | .error e => .error ⟨.notFound, e.message⟩
  | .ok t =>
    match w.draft.unresolved with
    | name :: _ => .error (invalid ("unknown column: " ++ name))
    | [] =>
      match Key.encode t.handle.schema w.draft.cells with
      | .error name => .error (invalid ("missing key column: " ++ name))
      | .ok key =>
        match applyToRows t.handle.schema t.rows w.kind key w.draft.cells with
        | .error status => .error status
        | .ok rows => .ok (s.replaceRows w.table rows)

/--
The store after a write, which stays as it is if the write is turned down.
-/
def applied (s : Store) (w : Write) : Store :=
  match s.apply w with
  | .ok s => s
  | .error _ => s

/--
The store after writes, each on what the earlier ones left. A write that is turned down stops none
of the later ones.
-/
def appliedAll (s : Store) (ws : List Write) : Store :=
  ws.foldl applied s

/--
The writes that are turned down when all are applied in order, each with its status.
-/
def rejections : Store → List Write → List (Write × Status)
  | _, [] => []
  | s, w :: ws =>
    match s.apply w with
    | .ok s => rejections s ws
    | .error status => (w, status) :: rejections s ws

/-!
# Reading
-/

/--
The rows of a table in the order of their keys.
-/
def rows (s : Store) (name : String) : Except StoreError (TableSchema × List Cells) :=
  match s.lookup name with
  | .error e => .error e
  | .ok t => .ok (t.handle.schema, t.rows.toList)

def rowCount (s : Store) (name : String) : Except StoreError Nat :=
  match s.lookup name with
  | .error e => .error e
  | .ok t => .ok t.rows.size

end Store

end KeyedTables
