import KeyedTables.Transfer.Conversion
import KeyedTables.Table.Write

/-!
This module contains datasets, rows that are read by position against one schema, and their writes.
-/

namespace KeyedTables

/--
Rows that share a schema. A row may have a schema of its own, fewer values or more.
-/
structure Dataset where
  schema : RowSchema
  rows : List Row
  deriving DecidableEq

namespace Dataset

/--
Equality of datasets: the same schema, and rows that are equal as rows.
-/
def equals (d e : Dataset) : Bool :=
  decide (d.schema = e.schema) && decide (d.rows.length = e.rows.length)
    && (d.rows.zip e.rows).all fun (a, b) => a.equals b

/--
The positions of the fields whose names are kept. The first field has position `first`.
-/
def keptPositions (keep : List String) (first : Nat) : List Field → List Nat
  | [] => []
  | f :: fs =>
    if keep.contains f.name then first :: keptPositions keep (first + 1) fs
    else keptPositions keep (first + 1) fs

/--
The value at a position, missing if the row is too short.
-/
def valueAt (r : Row) (position : Nat) : Value :=
  r.values[position]?.getD .null

/--
The dataset with only those fields whose names are kept. Its rows then share its schema. A dataset
of which all fields are kept stays as it is.
-/
def retainFields (d : Dataset) (keep : List String) : Dataset :=
  let positions := keptPositions keep 0 d.schema.fields
  if positions.length = d.schema.fields.length then
    d
  else
    let schema : RowSchema := ⟨d.schema.fields.filter fun f => keep.contains f.name⟩
    ⟨schema, d.rows.map fun r => .named schema (positions.map (valueAt r))⟩

/--
The columns of the fields, or the error of the first field that belongs to none.
-/
def columnsOf (t : TableHandle) : List Field → Except TransferError (List Column)
  | [] => .ok []
  | f :: fs =>
    match t.schema.column? f.name with
    | none => .error (.unknownColumn f.name t.name)
    | some c =>
      match columnsOf t fs with
      | .error e => .error e
      | .ok cs => .ok (c :: cs)

/--
Write values to columns, one after the other.
-/
def putAll (target : Target) : Draft → List (Column × Value) → Except TransferError Draft
  | d, [] => .ok d
  | d, (c, v) :: rest =>
    match d.put c v target with
    | .error e => .error e
    | .ok d => putAll target d rest

/--
The writes of rows whose values are for the given columns.
-/
def rowWrites (kind : WriteKind) (t : TableHandle) (columns : List Column) :
    List Row → Except TransferError (List Write)
  | [] => .ok []
  | r :: rs =>
    match putAll ⟨t.name, r⟩ (.empty t.schema) (columns.zip r.values) with
    | .error e => .error e
    | .ok draft =>
      match rowWrites kind t columns rs with
      | .error e => .error e
      | .ok ws => .ok (⟨kind, t.name, draft⟩ :: ws)

/--
The writes of a dataset, one for each row. Every field belongs to a column.
-/
def writes (d : Dataset) (kind : WriteKind) (t : TableHandle) :
    Except TransferError (List Write) :=
  match columnsOf t d.schema.fields with
  | .error e => .error e
  | .ok columns => rowWrites kind t columns d.rows

end Dataset

end KeyedTables
