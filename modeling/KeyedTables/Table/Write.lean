import KeyedTables.Table.Draft

/-!
This module contains the writes that are sent to a store, the tables that they are for, and what is
kept of a write that the store turned down.
-/

namespace KeyedTables

/--
The kinds of writes. An insert wants the key to be absent, an update and a delete want it to be
present, and an upsert takes either.
-/
inductive WriteKind where
  | insert
  | update
  | delete
  | upsert
  deriving DecidableEq

def WriteKind.name : WriteKind → String
  | .insert => "INSERT"
  | .update => "UPDATE"
  | .delete => "DELETE"
  | .upsert => "UPSERT"

structure Write where
  kind : WriteKind
  table : String
  draft : Draft

def Write.text (w : Write) : String :=
  w.kind.name ++ " " ++ w.table ++ " (" ++ w.draft.text ++ ")"

/--
A handle to a table: what is known of it without its rows.
-/
structure TableHandle where
  id : String
  name : String
  schema : TableSchema
  deriving DecidableEq

/--
A write to the table in which nothing is set yet.
-/
def TableHandle.newWrite (t : TableHandle) (kind : WriteKind) : Write :=
  ⟨kind, t.name, .empty t.schema⟩

/--
A write that was turned down, why, and by which server.
-/
structure FailedWrite where
  status : Status
  write : Write
  server : String

/--
The row, the server and the status of the write.
-/
def FailedWrite.text (f : FailedWrite) : String :=
  "Row error for primary key=" ++ f.write.draft.text ++ ", tablet server=" ++ f.server
    ++ ", status=" ++ f.status.text

/--
Failed writes in the order in which they were turned down. Once the holder of such a buffer has no
room for more, it only notes that there were some.
-/
structure FailureBuffer where
  failures : List FailedWrite := []
  overflowed : Bool := false

namespace FailureBuffer

/--
Keep a failed write, if fewer than `capacity` are held.
-/
def record (b : FailureBuffer) (capacity : Nat) (f : FailedWrite) : FailureBuffer :=
  if b.failures.length < capacity then { b with failures := b.failures ++ [f] }
  else { b with overflowed := true }

end FailureBuffer

end KeyedTables
