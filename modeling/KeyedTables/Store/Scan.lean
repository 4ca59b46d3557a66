import KeyedTables.Store.Basic
import KeyedTables.Table.Record

/-!
This module contains scans: which rows they ask for, which rows a store returns for them, and how
these are read page by page.
-/

namespace KeyedTables

/--
The condition that a column holds one of some values. A cell that is missing holds none.
-/
structure InList where
  column : Column
  values : List Cell

namespace InList

/--
The condition with these values, all of which must be such as the column may hold.
-/
def make (column : Column) (values : List Cell) : Except StoreError InList :=
  match values.find? fun v => !v.fits column.type with
  | some bad => .error (.typeMismatch column.name column.type bad.kindName)
  | none => .ok ⟨column, values⟩

/--
The cell holds one of the values.
-/
def holds (p : InList) : Option Cell → Bool
  | some v => p.values.any fun w => w.equals v
  | none => false

def text (p : InList) : String :=
  "\x60" ++ p.column.name ++ "\x60 IN ("
    ++ ", ".intercalate (p.values.map fun v => v.textIn p.column.type) ++ ")"

end InList

/--
The number of rows on a page, unless a scan asks for another.
-/
def defaultPageSize : Nat := 1024

/--
What a scan asks for: the rows of a table that meet all conditions, so many at a time.
-/
structure ScanRequest where
  table : TableHandle
  conditions : List InList := []
  pageSize : Nat := defaultPageSize
  pageSize_pos : 0 < pageSize := by decide

namespace ScanRequest

/--
Ask for so many rows at a time, but for at least one.
-/
def withPageSize (r : ScanRequest) (n : Nat) : ScanRequest :=
  { r with pageSize := max n 1, pageSize_pos := by omega }

/--
Ask only for rows that meet one more condition.
-/
def withCondition (r : ScanRequest) (p : InList) : ScanRequest :=
  { r with conditions := r.conditions ++ [p] }

end ScanRequest

namespace Store

/--
The conditions with the positions that their columns have in the table of the store.
-/
def resolveConditions (schema : TableSchema) :
    List InList → Except StoreError (List (Nat × InList))
  | [] => .ok []
  | p :: ps =>
    match schema.indexOf? p.column.name with
    | none => .error (.columnNotFound p.column.name)
    | some i =>
      match resolveConditions schema ps with
      | .error e => .error e
      | .ok rest => .ok ((i, p) :: rest)

/--
The cells meet all conditions.
-/
def meets (conditions : List (Nat × InList)) (cells : Cells) : Bool :=
  conditions.all fun (i, p) => p.holds cells[i]?.join

/--
The rows that a scan asks for, in the order of their keys.
-/
def scan (s : Store) (r : ScanRequest) : Except StoreError (TableSchema × List Cells) :=
  match s.lookup r.table.name with
  | .error e => .error e
  | .ok t =>
    match resolveConditions t.handle.schema r.conditions with
    | .error e => .error e
    | .ok conditions => .ok (t.handle.schema, t.rows.toList.filter (meets conditions))

end Store

/-!
# Pages

The bytes of all cells of a page lie in one buffer, as they do in a response of a server, and each
of these cells is a view of its part.
-/

namespace Page

/--
The bytes of a cell that holds some.
-/
def cellBytes : Option Cell → List UInt8
  | some (.binary bytes) => bytes
  | _ => []

/--
The buffer of a page: the bytes of its cells, row by row.
-/
def buffer (rows : List Cells) : List UInt8 :=
  rows.flatten.flatMap cellBytes

/--
Cut the bytes of a row's cells out of the buffer from an offset on. The result comes with the offset
of the next row.
-/
def cutRow (buffer : List UInt8) (offset : Nat) : Cells → Cells × Nat
  | [] => ([], offset)
  | some (.binary bytes) :: cells =>
    let stop := offset + bytes.length
    let (rest, next) := cutRow buffer stop cells
    (some (.binary ((buffer.take stop).drop offset)) :: rest, next)
  | cell :: cells =>
    let (rest, next) := cutRow buffer offset cells
    (cell :: rest, next)

/--
Cut the bytes of all rows out of the buffer from an offset on.
-/
def cut (buffer : List UInt8) (offset : Nat) : List Cells → List Cells
  | [] => []
  | cells :: rows =>
    let (cells, next) := cutRow buffer offset cells
    cells :: cut buffer next rows

end Page

/--
An open scan: the rows that have not been read yet.
-/
structure Cursor where
  schema : TableSchema
  remaining : List Cells
  pageSize : Nat
  pageSize_pos : 0 < pageSize
  /-- The number of pages that can still be read, and the error after that. -/
  allowance? : Option (Nat × StoreError) := none

namespace Cursor

def hasMore (c : Cursor) : Bool :=
  !c.remaining.isEmpty

/--
One page less can be read.
-/
def spend : Option (Nat × StoreError) → Option (Nat × StoreError)
  | some (n, e) => some (n - 1, e)
  | none => none

def next (c : Cursor) : Except StoreError (List Record × Cursor) :=
  match c.allowance?, c.remaining with
  | some (0, e), _ => .error e
  | _, [] => .error .scanExhausted
  | _, _ :: _ =>
    let rows := c.remaining.take c.pageSize
    let rows := Page.cut (Page.buffer rows) 0 rows
    .ok (rows.map fun cells => ⟨c.schema, cells⟩,
      { c with
        remaining := c.remaining.drop c.pageSize
        allowance? := spend c.allowance? })

/--
Read pages while there are rows. The fuel bounds the number of pages. The result comes with the
cursor after the last page.
-/
def readPages : Nat → Cursor → Except StoreError (List (List Record) × Cursor)
  | 0, c => .ok ([], c)
  | fuel + 1, c =>
    if c.hasMore then
      match c.next with
      | .error e => .error e
      | .ok (page, c) =>
        match readPages fuel c with
        | .error e => .error e
        | .ok (pages, c) => .ok (page :: pages, c)
    else
      .ok ([], c)

/--
Read all pages. There are at most as many as rows.
-/
def pages (c : Cursor) : Except StoreError (List (List Record) × Cursor) :=
  readPages c.remaining.length c

end Cursor

def Store.openCursor (s : Store) (r : ScanRequest) : Except StoreError Cursor :=
  match s.scan r with
  | .error e => .error e
  | .ok (schema, rows) => .ok ⟨schema, rows, r.pageSize, r.pageSize_pos, none⟩

end KeyedTables
