import KeyedTables.Transfer.Counters
import KeyedTables.Transfer.KnownSchemas
import KeyedTables.Session.Connection

/-!
This module contains lookups, which find out which rows of a table exist that are described by
filter rows. One scan does for all filter rows: for each field of the first one, it asks for the
rows whose column holds the value that the field has in any of them.
-/

namespace KeyedTables

/--
What lookups go by: the row schemas that are known, the counters that account for scans, and the
number of rows on a page.
-/
structure Lookup where
  schemas : KnownSchemas := {}
  tally? : Option ScanTally := none
  pageSize : Nat := defaultPageSize

namespace Lookup

/--
The cells that filter rows have in a column. A value that is missing adds none.
-/
def literals (t : TableHandle) (c : Column) (name : String) :
    List Row → Except TransferError (List Cell)
  | [] => .ok []
  | filter :: filters =>
    match filter.fieldValue name with
    | .error e => .error (.ofInput e)
    | .ok v =>
      match v.toCell c ⟨t.name, filter⟩ with
      | .error e => .error e
      | .ok cell =>
        match literals t c name filters with
        | .error e => .error e
        | .ok rest => .ok (cell.toList ++ rest)

/--
The condition that the column of a name holds the value of one of the filter rows.
-/
def condition (t : TableHandle) (filters : List Row) (name : String) :
    Except TransferError InList :=
  match t.schema.column? name with
  | none => .error (.unknownColumn name t.name)
  | some c =>
    match literals t c name filters with
    | .error e => .error e
    | .ok values =>
      match InList.make c values with
      | .ok p => .ok p
      | .error e => .error (.store e)

/--
The conditions for names in order, or the first error.
-/
def conditions (t : TableHandle) (filters : List Row) :
    List String → Except TransferError (List InList)
  | [] => .ok []
  | name :: names =>
    match condition t filters name with
    | .error e => .error e
    | .ok p =>
      match conditions t filters names with
      | .error e => .error e
      | .ok ps => .ok (p :: ps)

/--
The scan for filter rows, of which there must be one. The fields of the first one are asked for.
-/
def request (l : Lookup) (filters : List Row) (t : TableHandle) :
    Except TransferError ScanRequest :=
  match filters with
  | [] => .error .missingFilter
  | first :: _ =>
    match first.schema? with
    | none => .error (.missingSchema "existence filter")
    | some schema =>
      match conditions t filters schema.names with
      | .error e => .error e
      | .ok ps => .ok (ScanRequest.withPageSize { table := t, conditions := ps } l.pageSize)

def pageRows (schema : RowSchema) : List Record → Except TransferError (List Row)
  | [] => .ok []
  | r :: rs =>
    match r.toRow schema with
    | .error e => .error e
    | .ok row =>
      match pageRows schema rs with
      | .error e => .error e
      | .ok rows => .ok (row :: rows)

/--
Read pages while there are rows, each turned into generic rows before the next is read. The fuel
bounds the number of pages.
-/
def readRows (schema : RowSchema) : Nat → Cursor → Except TransferError (List Row)
  | 0, _ => .ok []
  | fuel + 1, c =>
    if c.hasMore then
      match c.next with
      | .error e => .error (.store e)
      | .ok (page, c) =>
        match pageRows schema page with
        | .error e => .error e
        | .ok rows =>
          match readRows schema fuel c with
          | .error e => .error e
          | .ok rest => .ok (rows ++ rest)
    else
      .ok []

/--
The lookup after it has accounted for a scan for so many filter rows.
-/
def recordScan (l : Lookup) (filters : Nat) : Lookup :=
  { l with tally? := l.tally?.map (·.recordScan filters) }

/--
The rows of a table that exist for filter rows, in the order of their keys. The scan is accounted
for before anything can fail. Without filter rows there is no scan.
-/
def run (l : Lookup) (filters : List Row) (t : TableHandle) (store : Store)
    (connection : Connection) : Except TransferError (List Row) × Lookup × Connection :=
  if filters.isEmpty then
    (.ok [], l, connection)
  else
    let l := l.recordScan filters.length
    match l.request filters t with
    | .error e => (.error e, l, connection)
    | .ok r =>
      let (schema, schemas) := l.schemas.schemaOf t
      let l := { l with schemas := schemas }
      match schema with
      | .error e => (.error e, l, connection)
      | .ok schema =>
        let (cursor, connection) := connection.openCursor store r
        match cursor with
        | .error e => (.error (.store e), l, connection)
        | .ok cursor => (readRows schema cursor.remaining.length cursor, l, connection)

end Lookup

end KeyedTables
