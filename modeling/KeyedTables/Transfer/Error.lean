import KeyedTables.Row
import KeyedTables.Table.StoreError

/-!
This module contains the errors of moving rows between a pipeline and a table: their texts, and the
codes and categories that they are reported under.
-/

namespace KeyedTables

inductive TransferError where
  /-- Fields have no type like that of the column. -/
  | unsupportedType (column : String) (type : ColumnType)
  /-- A value is of another kind than its column. -/
  | typeMismatch (table field : String) (expected : ColumnType) (actual : String) (row : Row)
  /-- A decimal does not fit its column without losing digits. -/
  | decimalOutOfRange (table field : String) (expected : ColumnType) (value : Decimal)
  /-- A row has no schema. The context says which row. -/
  | missingSchema (context : String)
  /-- A lookup was given no filter rows. -/
  | missingFilter
  /-- A planned row lacks its marker. -/
  | missingMarker (field : String)
  /-- A planned row asks for a change that cannot be made. -/
  | unsupportedIntent (intent : String)
  /-- A field belongs to no column of the table. -/
  | unknownColumn (column table : String)
  /-- A row or value is malformed in some other way. -/
  | invalidInput (message : String)
  /-- The store turned down writes of a batch: the first one, and how many others. -/
  | rejected (status write server : String) (suppressed : Nat)
  /-- A session still had outstanding writes after so many milliseconds. -/
  | timedOut (milliseconds : Nat)
  /-- A call to the store failed. -/
  | store (error : StoreError)
  /-- The configuration is not usable. -/
  | invalidSettings (message : String)
  deriving DecidableEq

inductive ErrorCode where
  | internal
  | invalidArgument
  | timeout
  | unsupportedType
  | typeMismatch
  | decimalOutOfRange
  | missingSchema
  | missingFilter
  | missingMutationKind
  | unsupportedMutationKind
  | columnNotFound
  | remoteApply
  | store
  | invalidSettings
  deriving DecidableEq

namespace ErrorCode

/--
The number of the code. Its high byte tells the category.
-/
def number : ErrorCode → Nat
  | .internal => 0x0001
  | .invalidArgument => 0x0003
  | .timeout => 0x0004
  | .unsupportedType => 0x0100
  | .typeMismatch => 0x0101
  | .decimalOutOfRange => 0x0102
  | .missingSchema => 0x0200
  | .missingFilter => 0x0201
  | .missingMutationKind => 0x0202
  | .unsupportedMutationKind => 0x0203
  | .columnNotFound => 0x0204
  | .remoteApply => 0x0300
  | .store => 0x0301
  | .invalidSettings => 0x0400

def name : ErrorCode → String
  | .internal => "Internal"
  | .invalidArgument => "InvalidArgument"
  | .timeout => "Timeout"
  | .unsupportedType => "UnsupportedType"
  | .typeMismatch => "TypeMismatch"
  | .decimalOutOfRange => "DecimalOutOfRange"
  | .missingSchema => "MissingSchema"
  | .missingFilter => "MissingFilter"
  | .missingMutationKind => "MissingMutationKind"
  | .unsupportedMutationKind => "UnsupportedMutationKind"
  | .columnNotFound => "ColumnNotFound"
  | .remoteApply => "RemoteApply"
  | .store => "Store"
  | .invalidSettings => "InvalidConfig"

def category (c : ErrorCode) : String :=
  match c.number / 256 with
  | 0 => "General"
  | 1 => "Type"
  | 2 => "Input"
  | 3 => "Store"
  | 4 => "Config"
  | _ => "Unknown"

end ErrorCode

namespace TransferError

def message [Calendar] : TransferError → String
  | .unsupportedType column type =>
    "unsupported store column type " ++ type.text ++ " for column '" ++ column ++ "'"
  | .typeMismatch table field expected actual row =>
    "unexpected type found in planned row: for table '" ++ table ++ "', field '" ++ field
      ++ "', expected store type '" ++ expected.text ++ "' but found '" ++ actual ++ "'. Row: "
      ++ row.text
  | .decimalOutOfRange table field expected value =>
    "decimal " ++ value.text ++ " does not fit field '" ++ field ++ "' of table '" ++ table
      ++ "' with type " ++ expected.text
  | .missingSchema context => context ++ " does not contain a schema"
  | .missingFilter => "existence filter was not provided"
  | .missingMarker field => "planned row does not carry a '" ++ field ++ "' field"
  | .unsupportedIntent intent => "unsupported mutation kind: " ++ intent
  | .unknownColumn column table => "column '" ++ column ++ "' not found in table '" ++ table ++ "'"
  | .invalidInput message => "invalid input: " ++ message
  | .rejected status write server _ =>
    "store output error '" ++ status ++ "' during operation '" ++ write ++ "' at tablet server '"
      ++ server ++ "'"
  | .timedOut milliseconds =>
    "timed out after " ++ toString milliseconds ++ "ms waiting for pending operations"
  | .store error => "store error: " ++ error.message
  | .invalidSettings message => "invalid configuration: " ++ message

/--
The code that the error is reported under. An internal error of the store is one of the general
errors.
-/
def code : TransferError → ErrorCode
  | .unsupportedType .. => .unsupportedType
  | .typeMismatch .. => .typeMismatch
  | .decimalOutOfRange .. => .decimalOutOfRange
  | .missingSchema _ => .missingSchema
  | .missingFilter => .missingFilter
  | .missingMarker _ => .missingMutationKind
  | .unsupportedIntent _ => .unsupportedMutationKind
  | .unknownColumn .. => .columnNotFound
  | .invalidInput _ => .invalidArgument
  | .rejected .. => .remoteApply
  | .timedOut _ => .timeout
  | .store (.internal _) => .internal
  | .store _ => .store
  | .invalidSettings _ => .invalidSettings

/--
The same call may succeed when it is made again.
-/
def isRetryable : TransferError → Bool
  | .store (.network _) => true
  | _ => false

/--
An error of interpreting a row, seen as one of moving it.
-/
def ofInput : InputError → TransferError
  | .missingSchema => .missingSchema "row"
  | .missingMarker field => .missingMarker field
  | .unknownIntent text => .unsupportedIntent text
  | e => .invalidInput e.message

end TransferError

end KeyedTables
