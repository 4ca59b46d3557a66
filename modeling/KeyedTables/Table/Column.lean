/-!
This module contains the columns of tables: their types, and whether they belong to the key.
-/

namespace KeyedTables

inductive ColumnType where
  | int8
  | int16
  | int32
  | int64
  | unixtimeMicros
  | float
  | double
  | string
  | binary
  | bool
  | decimal (precision scale : Nat)
  | date
  | varchar (maxLength : Nat)
  | array
  deriving DecidableEq

namespace ColumnType

def name : ColumnType → String
  | .int8 => "INT8"
  | .int16 => "INT16"
  | .int32 => "INT32"
  | .int64 => "INT64"
  | .unixtimeMicros => "UNIXTIME_MICROS"
  | .float => "FLOAT"
  | .double => "DOUBLE"
  | .string => "STRING"
  | .binary => "BINARY"
  | .bool => "BOOL"
  | .decimal _ _ => "DECIMAL"
  | .date => "DATE"
  | .varchar _ => "VARCHAR"
  | .array => "ARRAY"

def text : ColumnType → String
  | .decimal precision scale =>
    "DECIMAL(" ++ toString precision ++ ", " ++ toString scale ++ ")"
  | .varchar maxLength => "VARCHAR(" ++ toString maxLength ++ ")"
  | type => type.name

end ColumnType

/--
The part that a column plays: it belongs to the key, or it holds a value that may or may not be
missing.
-/
inductive ColumnRole where
  | key
  | value (nullable : Bool)
  deriving DecidableEq

structure Column where
  name : String
  type : ColumnType
  role : ColumnRole
  deriving DecidableEq

namespace Column

def key (name : String) (type : ColumnType) : Column :=
  ⟨name, type, .key⟩

def value (name : String) (type : ColumnType) : Column :=
  ⟨name, type, .value true⟩

/--
The column, if it does not belong to the key, with or without leave to be missing.
-/
def withNullable (c : Column) (nullable : Bool) : Column :=
  match c.role with
  | .key => c
  | .value _ => { c with role := .value nullable }

def isKey (c : Column) : Bool :=
  match c.role with
  | .key => true
  | .value _ => false

def isNullable (c : Column) : Bool :=
  match c.role with
  | .key => false
  | .value nullable => nullable

/--
Name and type, and what is special about the column.
-/
def text (c : Column) : String :=
  c.name ++ " " ++ c.type.text ++
    match c.role with
    | .key => " PRIMARY KEY"
    | .value true => ""
    | .value false => " NOT NULL"

end Column

end KeyedTables
