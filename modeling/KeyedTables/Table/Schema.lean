import KeyedTables.Decimal
import KeyedTables.Table.StoreError

/-!
This module contains the schemas of tables: the columns in order, those of the key first.
-/

namespace KeyedTables

/--
The first problem of columns that follow others. `afterValue` tells whether a column outside the key
came before, and `seen` holds the names that did.
-/
def SchemaProblem.scan (afterValue : Bool) (seen : List String) :
    List Column → Option SchemaProblem
  | [] => none
  | c :: cs =>
    if c.isKey && afterValue then
      some (.lateKey c.name)
    else
      let rest :=
        if seen.contains c.name then some (.duplicate c.name)
        else scan (afterValue || !c.isKey) (c.name :: seen) cs
      match c.type with
      | .decimal precision scale =>
        if precision = 0 ∨ Decimal.maxPrecision < precision ∨ precision < scale then
          some (.decimal c.name precision scale)
        else rest
      | _ => rest

def SchemaProblem.first? : List Column → Option SchemaProblem
  | [] => some .empty
  | c :: cs => if c.isKey then scan false [] (c :: cs) else some .leadingValue

/--
The columns of a table, in which no problem is found.
-/
structure TableSchema where
  columns : List Column
  noProblem : SchemaProblem.first? columns = none
  deriving DecidableEq

namespace TableSchema

def ofColumns (columns : List Column) : Except StoreError TableSchema :=
  match h : SchemaProblem.first? columns with
  | some problem => .error (.invalidSchema problem.message)
  | none => .ok ⟨columns, h⟩

theorem ofColumns_columns (s : TableSchema) : ofColumns s.columns = .ok s := by
  unfold ofColumns
  split
  . next h => simp [s.noProblem] at h
  . rfl

def indexOf? (s : TableSchema) (name : String) : Option Nat :=
  s.columns.findIdx? (·.name == name)

def column? (s : TableSchema) (name : String) : Option Column :=
  s.columns.find? (·.name == name)

/--
The column with this name, or the error that there is none.
-/
def requireColumn (s : TableSchema) (name : String) : Except StoreError Column :=
  match s.column? name with
  | some c => .ok c
  | none => .error (.columnNotFound name)

def hasColumn (s : TableSchema) (name : String) : Bool :=
  (s.indexOf? name).isSome

/--
The number of columns of the key, which come first.
-/
def keyCount (s : TableSchema) : Nat :=
  (s.columns.takeWhile Column.isKey).length

def names (s : TableSchema) : List String :=
  s.columns.map (·.name)

end TableSchema

end KeyedTables
