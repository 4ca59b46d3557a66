import KeyedTables.Transfer.Conversion
import KeyedTables.Table.Write

/-!
This module contains the row schemas that are known so far. The row schema of a table is derived
once, when it is first asked for. A table whose row schema cannot be derived is tried again each
time.
-/

namespace KeyedTables

/--
Row schemas by the names of their tables, and how often they were found and not found. The counters
are kept in 64 bits where they are shared. Together they grow by one with each call and by nothing
else, so natural numbers say the same of every run of fewer than `2 ^ 64` calls.
-/
structure KnownSchemas where
  entries : List (String × RowSchema) := []
  hits : Nat := 0
  misses : Nat := 0

namespace KnownSchemas

/--
The row schema of the table with this name, if it is known.
-/
def find? (k : KnownSchemas) (name : String) : Option RowSchema :=
  (k.entries.find? (·.1 == name)).map (·.2)

def schemaOf (k : KnownSchemas) (t : TableHandle) : Except TransferError RowSchema × KnownSchemas :=
  match k.find? t.name with
  | some schema => (.ok schema, { k with hits := k.hits + 1 })
  | none =>
    match t.schema.rowSchema with
    | .error e => (.error e, { k with misses := k.misses + 1 })
    | .ok schema =>
      (.ok schema, { k with
        entries := k.entries ++ [(t.name, schema)]
        misses := k.misses + 1 })

def size (k : KnownSchemas) : Nat :=
  k.entries.length

end KnownSchemas

end KeyedTables
