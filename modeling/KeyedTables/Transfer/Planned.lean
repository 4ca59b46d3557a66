import KeyedTables.Transfer.Conversion
import KeyedTables.Table.Write

/-!
This module contains the writes of planned rows. The marker of a planned row gives the kind of
write, and its other fields are written to the columns of their names.
-/

namespace KeyedTables

namespace Intent

/--
The intents that are carried out by writes.
-/
def writable : List Intent :=
  [.insert, .update, .delete, .upsert]

def writeKind : Intent → Except TransferError WriteKind
  | .insert => .ok .insert
  | .update => .ok .update
  | .delete => .ok .delete
  | .upsert => .ok .upsert
  | .none => .error (.unsupportedIntent Intent.none.name)
  | .overwrite => .error (.unsupportedIntent Intent.overwrite.name)

end Intent

namespace Draft

/--
Write fields to the columns of their names, one after the other. A field that belongs to no column
is dropped or noted.
-/
def fill (dropUnknown : Bool) (target : Target) :
    Draft → List (Field × Value) → Except TransferError Draft
  | d, [] => .ok d
  | d, (f, v) :: rest =>
    match d.schema.column? f.name with
    | none => fill dropUnknown target (if dropUnknown then d else d.markUnresolved f.name) rest
    | some c =>
      match d.put c v target with
      | .error e => .error e
      | .ok d => fill dropUnknown target d rest

end Draft

namespace Row

/--
The kind of write that a planned row asks for.
-/
def writeKind [Calendar] (r : Row) : Except TransferError WriteKind :=
  match r.intent with
  | .error e => .error (.ofInput e)
  | .ok intent => intent.writeKind

def entries (r : Row) : List (Field × Value) :=
  match r.schema? with
  | some schema => schema.fields.zip r.values
  | none => []

def toWrite [Calendar] (planned : Row) (t : TableHandle) (dropUnknown : Bool) :
    Except TransferError Write :=
  match planned.schema? with
  | none => .error (.missingSchema "planned row")
  | some _ =>
    match planned.writeKind with
    | .error e => .error e
    | .ok kind =>
      let row := planned.withoutMarker
      match Draft.fill dropUnknown ⟨t.name, row⟩ (.empty t.schema) row.entries with
      | .error e => .error e
      | .ok draft => .ok ⟨kind, t.name, draft⟩

/--
The writes of planned rows in order, or the error of the first row that has none.
-/
def toWrites [Calendar] (t : TableHandle) (dropUnknown : Bool) :
    List Row → Except TransferError (List Write)
  | [] => .ok []
  | planned :: rest =>
    match planned.toWrite t dropUnknown with
    | .error e => .error e
    | .ok w =>
      match toWrites t dropUnknown rest with
      | .error e => .error e
      | .ok ws => .ok (w :: ws)

end Row

end KeyedTables
