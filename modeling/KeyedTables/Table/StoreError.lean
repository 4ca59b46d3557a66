import KeyedTables.Table.Column

/-!
This module contains the errors of a store of tables, the statuses with which it turns down writes,
and their texts.
-/

namespace KeyedTables

inductive SchemaProblem where
  /-- There are no columns. -/
  | empty
  /-- The first column does not belong to the key. -/
  | leadingValue
  /-- A column of the key comes after one that does not belong to it. -/
  | lateKey (column : String)
  /-- No decimal has these digits. -/
  | decimal (column : String) (precision scale : Nat)
  /-- Two columns have the same name. -/
  | duplicate (column : String)
  deriving DecidableEq

def SchemaProblem.message : SchemaProblem → String
  | .empty => "schema has no columns"
  | .leadingValue => "the first column must be a key column"
  | .lateKey column => "key column '" ++ column ++ "' follows a non-key column"
  | .decimal column precision scale =>
    "column '" ++ column ++ "' has invalid decimal attributes (" ++ toString precision ++ ", "
      ++ toString scale ++ ")"
  | .duplicate column => "duplicate column name '" ++ column ++ "'"

inductive StoreError where
  | tableNotFound (name : String)
  | tableExists (name : String)
  | columnNotFound (name : String)
  /-- A cell was written or read as another type than that of its column. -/
  | typeMismatch (column : String) (expected : ColumnType) (requested : String)
  /-- A missing cell was read as a value. -/
  | nullValue (column : String)
  /-- A decimal has more digits than its column. -/
  | decimalOutOfRange (column : String) (expected : ColumnType)
  | invalidSchema (description : String)
  /-- The session takes no more writes. -/
  | sessionClosed
  /-- All rows of the scan have been read. -/
  | scanExhausted
  | authenticationFailed (reason : String)
  | network (reason : String)
  | internal (reason : String)
  deriving DecidableEq

def StoreError.message : StoreError → String
  | .tableNotFound name => "table not found: " ++ name
  | .tableExists name => "table already exists: " ++ name
  | .columnNotFound name => "unknown column: " ++ name
  | .typeMismatch column expected requested =>
    "column '" ++ column ++ "' is of type " ++ expected.text ++ ", not " ++ requested
  | .nullValue column => "column '" ++ column ++ "' is null"
  | .decimalOutOfRange column expected =>
    "decimal does not fit column '" ++ column ++ "' of type " ++ expected.text
  | .invalidSchema description => "invalid schema: " ++ description
  | .sessionClosed => "session closed"
  | .scanExhausted => "scanner exhausted"
  | .authenticationFailed reason => "authentication failed: " ++ reason
  | .network reason => "network error: " ++ reason
  | .internal reason => "internal error: " ++ reason

/--
The class of the reason for which a write was turned down.
-/
inductive StatusCode where
  | alreadyPresent
  | notFound
  | invalidArgument
  | serviceUnavailable
  | timedOut
  | illegalState
  deriving DecidableEq

def StatusCode.text : StatusCode → String
  | .alreadyPresent => "Already present"
  | .notFound => "Not found"
  | .invalidArgument => "Invalid argument"
  | .serviceUnavailable => "Service unavailable"
  | .timedOut => "Timed out"
  | .illegalState => "Illegal state"

structure Status where
  code : StatusCode
  message : String
  deriving DecidableEq

def Status.text (s : Status) : String :=
  s.code.text ++ ": " ++ s.message

end KeyedTables
