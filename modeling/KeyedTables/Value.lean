import KeyedTables.Decimal
import KeyedTables.Number.Shortest
import KeyedTables.Time.Calendar

/-!
This module contains the types and values of the fields of generic rows, which know nothing of any
table.
-/

namespace KeyedTables

inductive FieldType where
  | float64
  | float32
  | int8
  | int16
  | int32
  | int64
  | string
  | boolean
  | binary
  | timestamp
  | decimal (precision scale : Nat)
  deriving DecidableEq

namespace FieldType

/--
The type is one of numbers. A timestamp is none.
-/
def isNumeric : FieldType → Bool
  | .float64 | .float32 | .int8 | .int16 | .int32 | .int64 | .decimal _ _ => true
  | .string | .boolean | .binary | .timestamp => false

def text : FieldType → String
  | .float64 => "float64"
  | .float32 => "float32"
  | .int8 => "int8"
  | .int16 => "int16"
  | .int32 => "int32"
  | .int64 => "int64"
  | .string => "string"
  | .boolean => "boolean"
  | .binary => "binary"
  | .timestamp => "timestamp"
  | .decimal precision scale =>
    "decimal(" ++ toString precision ++ "," ++ toString scale ++ ")"

end FieldType

/--
The value of a field. Timestamps count microseconds from the start of 1970.
-/
inductive Value where
  | null
  | boolean (value : Bool)
  | int8 (value : Int8)
  | int16 (value : Int16)
  | int32 (value : Int32)
  | int64 (value : Int64)
  | float32 (value : Binary32)
  | float64 (value : Binary64)
  | string (value : String)
  | binary (bytes : List UInt8)
  | timestamp (micros : Int64)
  | decimal (value : Decimal)
  deriving DecidableEq

namespace Value

def isNull : Value → Bool
  | .null => true
  | _ => false

/--
The name of the kind of value, as errors show it.
-/
def kindName : Value → String
  | .null => "Null"
  | .boolean _ => "Boolean"
  | .int8 _ => "Int8"
  | .int16 _ => "Int16"
  | .int32 _ => "Int32"
  | .int64 _ => "Int64"
  | .float32 _ => "Float32"
  | .float64 _ => "Float64"
  | .string _ => "String"
  | .binary _ => "Binary"
  | .timestamp _ => "Timestamp"
  | .decimal _ => "Decimal"

/--
The type of the value. What is missing has none.
-/
def fieldType? : Value → Option FieldType
  | .null => none
  | .boolean _ => some .boolean
  | .int8 _ => some .int8
  | .int16 _ => some .int16
  | .int32 _ => some .int32
  | .int64 _ => some .int64
  | .float32 _ => some .float32
  | .float64 _ => some .float64
  | .string _ => some .string
  | .binary _ => some .binary
  | .timestamp _ => some .timestamp
  | .decimal d => some (.decimal d.precision d.scale)

/--
The text of the value. Bytes are only counted.
-/
def text [Calendar] : Value → String
  | .null => "null"
  | .boolean b => if b then "true" else "false"
  | .int8 i => toString i.toInt
  | .int16 i => toString i.toInt
  | .int32 i => toString i.toInt
  | .int64 i => toString i.toInt
  | .float32 x => x.text
  | .float64 x => x.text
  | .string s => s
  | .binary bytes => "<" ++ toString bytes.length ++ " bytes>"
  | .timestamp micros => Timestamp.text micros
  | .decimal d => d.text

/--
Equality of values of the same kind, that of floating point numbers as numbers.
-/
def equals : Value → Value → Bool
  | .null, .null => true
  | .boolean a, .boolean b => decide (a = b)
  | .int8 a, .int8 b => decide (a = b)
  | .int16 a, .int16 b => decide (a = b)
  | .int32 a, .int32 b => decide (a = b)
  | .int64 a, .int64 b => decide (a = b)
  | .float32 a, .float32 b => a.equals b
  | .float64 a, .float64 b => a.equals b
  | .string a, .string b => decide (a = b)
  | .binary a, .binary b => decide (a = b)
  | .timestamp a, .timestamp b => decide (a = b)
  | .decimal a, .decimal b => decide (a = b)
  | _, _ => false

def boolean? : Value → Option Bool
  | .boolean b => some b
  | _ => none

/--
The integer, if the value is one of 64 bits. Narrower integers are not widened.
-/
def int64? : Value → Option Int64
  | .int64 i => some i
  | _ => none

def string? : Value → Option String
  | .string s => some s
  | _ => none

def binary? : Value → Option (List UInt8)
  | .binary bytes => some bytes
  | _ => none

def decimal? : Value → Option Decimal
  | .decimal d => some d
  | _ => none

/--
The microseconds of a timestamp that the calendar covers.
-/
def instant? [Calendar] : Value → Option Int64
  | .timestamp micros => if (Calendar.text? micros).isSome then some micros else none
  | _ => none

def ofOption : Option Value → Value
  | some v => v
  | none => .null

end Value

end KeyedTables
