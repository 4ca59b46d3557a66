import KeyedTables.Transfer.Error
import KeyedTables.Table.Draft
import KeyedTables.Table.Record

/-!
This module contains the conversions between the values of generic rows and the cells of tables.
Each column type has at most one field type, and no value is ever widened or narrowed to another
kind. Dates, bounded strings and arrays have no field type.
-/

namespace KeyedTables

/--
The type of the field that corresponds to a column.
-/
def Column.fieldType (c : Column) : Except TransferError FieldType :=
  match c.type with
  | .double => .ok .float64
  | .float => .ok .float32
  | .int8 => .ok .int8
  | .int16 => .ok .int16
  | .int32 => .ok .int32
  | .int64 => .ok .int64
  | .string => .ok .string
  | .bool => .ok .boolean
  | .binary => .ok .binary
  | .unixtimeMicros => .ok .timestamp
  | .decimal precision scale => .ok (.decimal precision scale)
  | .date | .varchar _ | .array => .error (.unsupportedType c.name c.type)

/--
The fields that correspond to columns, or the error of the first column that has none.
-/
def Column.fields : List Column → Except TransferError (List Field)
  | [] => .ok []
  | c :: cs =>
    match c.fieldType with
    | .error e => .error e
    | .ok type =>
      match fields cs with
      | .error e => .error e
      | .ok rest => .ok (.optional c.name type :: rest)

/--
The schema of the generic rows of a table, in the order of its columns.
-/
def TableSchema.rowSchema (s : TableSchema) : Except TransferError RowSchema :=
  match Column.fields s.columns with
  | .ok fields => .ok ⟨fields⟩
  | .error e => .error e

/--
What a value is converted for, so that errors can name it: the table, and the row that the value is
from.
-/
structure Target where
  table : String
  row : Row

namespace Value

/--
The cell of a value in a column. A missing value has no cell. A decimal takes on the scale of its
column.
-/
def toCell (v : Value) (c : Column) (target : Target) : Except TransferError (Option Cell) :=
  match c.type, v with
  | _, .null => .ok none
  | .double, .float64 x => .ok (some (.double x))
  | .float, .float32 x => .ok (some (.float x))
  | .int8, .int8 i => .ok (some (.int8 i))
  | .int16, .int16 i => .ok (some (.int16 i))
  | .int32, .int32 i => .ok (some (.int32 i))
  | .int64, .int64 i => .ok (some (.int64 i))
  | .string, .string s => .ok (some (.string s))
  | .bool, .boolean b => .ok (some (.bool b))
  | .binary, .binary bytes => .ok (some (.binary bytes))
  | .unixtimeMicros, .timestamp micros => .ok (some (.unixtimeMicros micros))
  | .decimal precision scale, .decimal d =>
    match d.rescale precision scale with
    | some r => .ok (some (.decimal r.unscaled))
    | none => .error (.decimalOutOfRange target.table c.name c.type d)
  | .date, _ | .varchar _, _ | .array, _ => .error (.unsupportedType c.name c.type)
  | type, v => .error (.typeMismatch target.table c.name type v.kindName target.row)

end Value

/--
Write a value into a draft. A missing value leaves the column unset.
-/
def Draft.put (d : Draft) (c : Column) (v : Value) (target : Target) :
    Except TransferError Draft :=
  match v.toCell c target with
  | .error e => .error e
  | .ok none => .ok d
  | .ok (some cell) =>
    match d.set c.name cell with
    | .ok d => .ok d
    | .error e => .error (.store e)

namespace Record

def asValue (wrap : α → Value) : Except StoreError α → Except TransferError Value
  | .ok a => .ok (wrap a)
  | .error e => .error (.store e)

/--
The value of a cell. A cell that is missing has no value, whatever the type of its column.
-/
def value (r : Record) (c : Column) : Except TransferError Value :=
  match r.isNull c.name with
  | .error e => .error (.store e)
  | .ok true => .ok .null
  | .ok false =>
    match c.type with
    | .double => asValue .float64 (r.getDouble c.name)
    | .float => asValue .float32 (r.getFloat c.name)
    | .int8 => asValue .int8 (r.getInt8 c.name)
    | .int16 => asValue .int16 (r.getInt16 c.name)
    | .int32 => asValue .int32 (r.getInt32 c.name)
    | .int64 => asValue .int64 (r.getInt64 c.name)
    | .string => asValue .string (r.getString c.name)
    | .bool => asValue .boolean (r.getBool c.name)
    | .binary => asValue .binary (r.getBinary c.name)
    | .unixtimeMicros => asValue .timestamp (r.getUnixtimeMicros c.name)
    | .decimal precision scale =>
      match r.getDecimal c.name with
      | .error e => .error (.store e)
      | .ok unscaled =>
        match Decimal.make unscaled precision scale with
        | .ok d => .ok (.decimal d)
        | .error e => .error (.ofInput e)
    | .date | .varchar _ | .array => .error (.unsupportedType c.name c.type)

/--
The values of the cells of columns, or the first error.
-/
def valuesOf (r : Record) : List Column → Except TransferError (List Value)
  | [] => .ok []
  | c :: cs =>
    match r.value c with
    | .error e => .error e
    | .ok v =>
      match r.valuesOf cs with
      | .error e => .error e
      | .ok vs => .ok (v :: vs)

/--
The whole record as a generic row with the given schema.
-/
def toRow (r : Record) (schema : RowSchema) : Except TransferError Row :=
  match r.valuesOf r.schema.columns with
  | .ok values => .ok (.named schema values)
  | .error e => .error e

end Record

end KeyedTables
