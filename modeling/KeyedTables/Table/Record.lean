import KeyedTables.Table.Cell
import KeyedTables.Table.Schema

/-!
This module contains records, the rows that a scan returns, and how their cells are read by name.
-/

namespace KeyedTables

/--
A row of a table. The cells are in the order of the columns.
-/
structure Record where
  schema : TableSchema
  cells : Cells

namespace Record

def locate (r : Record) (name : String) : Except StoreError (Column × Option Cell) :=
  match r.schema.indexOf? name with
  | none => .error (.columnNotFound name)
  | some i =>
    match r.schema.columns[i]? with
    | none => .error (.columnNotFound name)
    | some c => .ok (c, r.cells[i]?.join)

def isNull (r : Record) (name : String) : Except StoreError Bool :=
  match r.locate name with
  | .error e => .error e
  | .ok (_, cell) => .ok cell.isNone

/--
Read the cell of a column as a value of the kind that `extract` takes out.
-/
def read (r : Record) (name kind : String) (extract : Cell → Option α) : Except StoreError α :=
  match r.locate name with
  | .error e => .error e
  | .ok (_, none) => .error (.nullValue name)
  | .ok (c, some v) =>
    match extract v with
    | some a => .ok a
    | none => .error (.typeMismatch name c.type kind)

def getBool (r : Record) (name : String) : Except StoreError Bool :=
  r.read name "bool" Cell.bool?

def getInt8 (r : Record) (name : String) : Except StoreError Int8 :=
  r.read name "int8" Cell.int8?

def getInt16 (r : Record) (name : String) : Except StoreError Int16 :=
  r.read name "int16" Cell.int16?

def getInt32 (r : Record) (name : String) : Except StoreError Int32 :=
  r.read name "int32" Cell.int32?

def getInt64 (r : Record) (name : String) : Except StoreError Int64 :=
  r.read name "int64" Cell.int64?

def getFloat (r : Record) (name : String) : Except StoreError Binary32 :=
  r.read name "float" Cell.float?

def getDouble (r : Record) (name : String) : Except StoreError Binary64 :=
  r.read name "double" Cell.double?

def getString (r : Record) (name : String) : Except StoreError String :=
  r.read name "string" Cell.string?

def getBinary (r : Record) (name : String) : Except StoreError (List UInt8) :=
  r.read name "binary" Cell.binary?

def getUnixtimeMicros (r : Record) (name : String) : Except StoreError Int64 :=
  r.read name "unixtime_micros" Cell.unixtimeMicros?

def getDecimal (r : Record) (name : String) : Except StoreError Int :=
  r.read name "decimal" Cell.decimal?

def getDate (r : Record) (name : String) : Except StoreError Int32 :=
  r.read name "date" Cell.date?

end Record

end KeyedTables
