import KeyedTables.Table.Cell
import KeyedTables.Table.Schema

/-!
This module contains the encoding of keys as bytes. The order of the encodings, compared byte by
byte, is the order of the keys:
- whole numbers are moved up by half of their range and written with the highest byte first,
- floating point numbers are written as their rank among the bit patterns,
- in strings and bytes a zero is followed by 255, and their end is marked by a zero and a one.
-/

namespace KeyedTables

namespace Key

/--
The lowest `width` bytes of `n`, the highest first.
-/
def bigEndian : Nat → Nat → List UInt8
  | 0, _ => []
  | width + 1, n => UInt8.ofNat (n / 256 ^ width) :: bigEndian width (n % 256 ^ width)

/--
A signed number of `width` bytes, moved up by half of the range.
-/
def encodeSigned (width : Nat) (i : Int) : List UInt8 :=
  bigEndian width (i + 2 ^ (8 * width - 1)).toNat

/--
Bytes with their end marked so that no other encoding starts with this one.
-/
def encodeBytes : List UInt8 → List UInt8
  | [] => [0, 1]
  | b :: bs => if b = 0 then 0 :: 255 :: encodeBytes bs else b :: encodeBytes bs

/--
The encoding of one cell.
-/
def encodeCell : Cell → List UInt8
  | .bool b => [if b then 1 else 0]
  | .int8 i => encodeSigned 1 i.toInt
  | .int16 i => encodeSigned 2 i.toInt
  | .int32 i => encodeSigned 4 i.toInt
  | .int64 i => encodeSigned 8 i.toInt
  | .unixtimeMicros micros => encodeSigned 8 micros.toInt
  | .float x => bigEndian 4 x.rank
  | .double x => bigEndian 8 x.rank
  | .string s => encodeBytes s.toByteArray.data.toList
  | .binary bytes => encodeBytes bytes
  | .decimal unscaled => encodeSigned 16 unscaled
  | .date days => encodeSigned 4 days.toInt

/--
The encodings of the key cells among the given columns and cells, one after the other. A key cell
that is missing gives the name of its column instead.
-/
def encodeCells : List Column → Cells → Except String (List UInt8)
  | c :: cs, cell :: cells =>
    if c.isKey then
      match cell with
      | none => .error c.name
      | some v =>
        match encodeCells cs cells with
        | .error name => .error name
        | .ok rest => .ok (encodeCell v ++ rest)
    else
      .ok []
  | _, _ => .ok []

def encode (schema : TableSchema) (cells : Cells) : Except String (List UInt8) :=
  encodeCells schema.columns cells

end Key

end KeyedTables
