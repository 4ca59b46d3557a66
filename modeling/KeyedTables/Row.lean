import KeyedTables.Intent
import KeyedTables.Value

/-!
This module contains generic rows: values in order, which may come with a schema that names and
types them, and the marker field that carries the intent of a planned row.
-/

namespace KeyedTables

structure Field where
  name : String
  type : FieldType
  nullable : Bool
  deriving DecidableEq

namespace Field

def optional (name : String) (type : FieldType) : Field :=
  ⟨name, type, true⟩

def text (f : Field) : String :=
  f.name ++ ":" ++ f.type.text

end Field

/--
The fields of a row in order. Names may repeat; the first field of a name is the one that is found.
-/
structure RowSchema where
  fields : List Field
  deriving DecidableEq

namespace RowSchema

def names (s : RowSchema) : List String :=
  s.fields.map (·.name)

/--
The position of the first field with this name.
-/
def indexOf? (s : RowSchema) (name : String) : Option Nat :=
  s.fields.findIdx? (·.name == name)

def contains (s : RowSchema) (name : String) : Bool :=
  (s.indexOf? name).isSome

def text (s : RowSchema) : String :=
  "struct<" ++ ",".intercalate (s.fields.map Field.text) ++ ">"

end RowSchema

structure Row where
  schema? : Option RowSchema
  values : List Value
  deriving DecidableEq

namespace Row

def bare (values : List Value) : Row :=
  ⟨none, values⟩

def named (schema : RowSchema) (values : List Value) : Row :=
  ⟨some schema, values⟩

/--
A row given field by field. All fields are optional.
-/
def ofFields (fields : List (String × FieldType × Value)) : Row :=
  named ⟨fields.map fun (name, type, _) => .optional name type⟩
    (fields.map fun (_, _, value) => value)

def text [Calendar] (r : Row) : String :=
  "[" ++ ",".intercalate (r.values.map Value.text) ++ "]"

/--
Equality of rows: the same schema, if any, and values that are equal as values.
-/
def equals (r t : Row) : Bool :=
  decide (r.schema? = t.schema?) && decide (r.values.length = t.values.length)
    && (r.values.zip t.values).all fun (a, b) => a.equals b

/--
The value at a position is missing, or there is no such position.
-/
def isNullAt (r : Row) (index : Nat) : Bool :=
  match r.values[index]? with
  | some v => v.isNull
  | none => true

def fieldValue (r : Row) (name : String) : Except InputError Value :=
  match r.schema? with
  | none => .error .missingSchema
  | some schema =>
    match schema.indexOf? name with
    | none => .error (.unknownField name)
    | some index =>
      match r.values[index]? with
      | some v => .ok v
      | none => .error (.unknownField name)

/--
The row without the first field of this name. A row that has no such field stays as it is.
-/
def withoutField (r : Row) (name : String) : Row :=
  match r.schema? with
  | none => r
  | some schema =>
    match schema.indexOf? name with
    | none => r
    | some index => named ⟨schema.fields.eraseIdx index⟩ (r.values.eraseIdx index)

/--
The row with the first field of this name replaced, or with the field at its end if there is none.
-/
def withField (r : Row) (name : String) (type : FieldType) (value : Value) :
    Except InputError Row :=
  match r.schema? with
  | none => .error .missingSchema
  | some schema =>
    match schema.indexOf? name with
    | some index =>
      .ok (named ⟨schema.fields.set index (.optional name type)⟩ (r.values.set index value))
    | none =>
      .ok (named ⟨schema.fields ++ [.optional name type]⟩ (r.values ++ [value]))

/-!
# The marker of planned rows
-/

/--
The name of the field that carries the intent of a planned row.
-/
def markerField : String := "_mutation_type"

/--
The intent of a planned row. A marker that is missing counts as one that is not there.
-/
def intent [Calendar] (r : Row) : Except InputError Intent :=
  match r.fieldValue markerField with
  | .error (.unknownField _) => .error (.missingMarker markerField)
  | .error e => .error e
  | .ok (.string name) =>
    match Intent.ofName? name with
    | some intent => .ok intent
    | none => .error (.unknownIntent name)
  | .ok .null => .error (.missingMarker markerField)
  | .ok other => .error (.unknownIntent other.text)

def withoutMarker (r : Row) : Row :=
  r.withoutField markerField

def withIntent (r : Row) (intent : Intent) : Except InputError Row :=
  r.withField markerField .string (.string intent.name)

end Row

end KeyedTables
