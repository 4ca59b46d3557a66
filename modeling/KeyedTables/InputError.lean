/-!
This module contains the errors of interpreting generic rows and their texts.
-/

namespace KeyedTables

/--
Why a generic row, or a value for one, could not be interpreted.
-/
inductive InputError where
  /-- The text is no decimal literal. -/
  | invalidDecimal (text : String)
  /-- Precision and scale admit no such decimal. -/
  | decimalPrecision (precision scale : Nat)
  /-- The text names no intent. -/
  | unknownIntent (text : String)
  /-- A planned row lacks the field that marks its intent. -/
  | missingMarker (field : String)
  /-- The row has no schema, so its fields have no names. -/
  | missingSchema
  /-- The row's schema has no such field. -/
  | unknownField (name : String)
  deriving DecidableEq

def InputError.message : InputError → String
  | .invalidDecimal text => "invalid decimal literal: '" ++ text ++ "'"
  | .decimalPrecision precision scale =>
    "decimal precision " ++ toString precision ++ " and scale " ++ toString scale
      ++ " are out of range"
  | .unknownIntent text => "unknown mutation kind: '" ++ text ++ "'"
  | .missingMarker field => "row does not carry a '" ++ field ++ "' field"
  | .missingSchema => "row does not contain a schema"
  | .unknownField name => "field not found: '" ++ name ++ "'"

end KeyedTables
