import KeyedTables.Number.Shortest
import KeyedTables.Table.Column

/-!
This module contains the cells of tables.
-/

namespace KeyedTables

/--
A cell that is present, as a table holds it. A decimal is kept without its scale, which is that of
its column, and a date counts days from the start of 1970.
-/
inductive Cell where
  | bool (value : Bool)
  | int8 (value : Int8)
  | int16 (value : Int16)
  | int32 (value : Int32)
  | int64 (value : Int64)
  | unixtimeMicros (micros : Int64)
  | float (value : Binary32)
  | double (value : Binary64)
  | string (value : String)
  | binary (bytes : List UInt8)
  | decimal (unscaled : Int)
  | date (days : Int32)
  deriving DecidableEq

/--
The cells of a row in the order of the columns. A cell that is missing is `none`.
-/
abbrev Cells := List (Option Cell)

namespace Cell

/--
The name of the kind of cell, as errors show it.
-/
def kindName : Cell → String
  | .bool _ => "bool"
  | .int8 _ => "int8"
  | .int16 _ => "int16"
  | .int32 _ => "int32"
  | .int64 _ => "int64"
  | .unixtimeMicros _ => "unixtime_micros"
  | .float _ => "float"
  | .double _ => "double"
  | .string _ => "string"
  | .binary _ => "binary"
  | .decimal _ => "decimal"
  | .date _ => "date"

/--
An unscaled decimal has at most so many digits.
-/
def decimalFits (unscaled : Int) (precision : Nat) : Bool :=
  decide (Number.digitCount unscaled.natAbs ≤ precision)

/--
The cell may stand in a column of this type: it is of the type, a bounded string has no more
characters than its bound, and a decimal has no more digits than its precision. No cell may stand in
a column of arrays.
-/
def fits : Cell → ColumnType → Bool
  | .bool _, .bool => true
  | .int8 _, .int8 => true
  | .int16 _, .int16 => true
  | .int32 _, .int32 => true
  | .int64 _, .int64 => true
  | .unixtimeMicros _, .unixtimeMicros => true
  | .float _, .float => true
  | .double _, .double => true
  | .string _, .string => true
  | .binary _, .binary => true
  | .date _, .date => true
  | .string s, .varchar maxLength => decide (s.length ≤ maxLength)
  | .decimal unscaled, .decimal precision _ => decimalFits unscaled precision
  | _, _ => false

def text : Cell → String
  | .bool b => if b then "true" else "false"
  | .int8 i => toString i.toInt
  | .int16 i => toString i.toInt
  | .int32 i => toString i.toInt
  | .int64 i => toString i.toInt
  | .unixtimeMicros micros => toString micros.toInt ++ "us"
  | .float x => x.text
  | .double x => x.text
  | .string s => s
  | .binary bytes => "<" ++ toString bytes.length ++ " bytes>"
  | .decimal unscaled => toString unscaled
  | .date days => "date:" ++ toString days.toInt

/--
The text of the cell in a column of this type, where a decimal may have places.
-/
def textIn : Cell → ColumnType → String
  | .decimal unscaled, .decimal _ scale =>
    if 0 < scale then
      let magnitude := unscaled.natAbs
      let divisor := 10 ^ scale
      let sign := if unscaled < 0 then "-" else ""
      sign ++ toString (magnitude / divisor) ++ "." ++ Number.padded scale (magnitude % divisor)
    else (Cell.decimal unscaled).text
  | cell, _ => cell.text

/--
Equality of cells of the same kind, that of floating point numbers as numbers.
-/
def equals : Cell → Cell → Bool
  | .bool a, .bool b => decide (a = b)
  | .int8 a, .int8 b => decide (a = b)
  | .int16 a, .int16 b => decide (a = b)
  | .int32 a, .int32 b => decide (a = b)
  | .int64 a, .int64 b => decide (a = b)
  | .unixtimeMicros a, .unixtimeMicros b => decide (a = b)
  | .float a, .float b => a.equals b
  | .double a, .double b => a.equals b
  | .string a, .string b => decide (a = b)
  | .binary a, .binary b => decide (a = b)
  | .decimal a, .decimal b => decide (a = b)
  | .date a, .date b => decide (a = b)
  | _, _ => false

/-!
# Reading a cell as a value of one kind
-/

def bool? : Cell → Option Bool
  | .bool b => some b
  | _ => none

/--
The integer of the cell, if it is one of 8 bits.
-/
def int8? : Cell → Option Int8
  | .int8 i => some i
  | _ => none

/--
The integer of the cell, if it is one of 16 bits.
-/
def int16? : Cell → Option Int16
  | .int16 i => some i
  | _ => none

/--
The integer of the cell, if it is one of 32 bits.
-/
def int32? : Cell → Option Int32
  | .int32 i => some i
  | _ => none

/--
The integer of the cell, if it is one of 64 bits.
-/
def int64? : Cell → Option Int64
  | .int64 i => some i
  | _ => none

/--
The microseconds of the cell, if it is a timestamp.
-/
def unixtimeMicros? : Cell → Option Int64
  | .unixtimeMicros micros => some micros
  | _ => none

/--
The number of the cell, if it is one of 32 bits.
-/
def float? : Cell → Option Binary32
  | .float x => some x
  | _ => none

/--
The number of the cell, if it is one of 64 bits.
-/
def double? : Cell → Option Binary64
  | .double x => some x
  | _ => none

def string? : Cell → Option String
  | .string s => some s
  | _ => none

def binary? : Cell → Option (List UInt8)
  | .binary bytes => some bytes
  | _ => none

/--
The unscaled value of the cell, if it is a decimal.
-/
def decimal? : Cell → Option Int
  | .decimal unscaled => some unscaled
  | _ => none

def date? : Cell → Option Int32
  | .date days => some days
  | _ => none

end Cell

end KeyedTables
