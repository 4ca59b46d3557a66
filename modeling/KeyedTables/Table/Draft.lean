import KeyedTables.Table.Cell
import KeyedTables.Table.Schema

/-!
This module contains drafts, the rows that are being filled in for a write. A column that a draft
leaves unset is missing from an insert and untouched by an update.
-/

namespace KeyedTables

/--
There is one cell for each column, and those that are present may stand in it.
-/
def FitColumns : List Column → Cells → Prop
  | [], [] => True
  | c :: cs, cell :: cells => (∀ v, cell = some v → v.fits c.type = true) ∧ FitColumns cs cells
  | [], _ :: _ => False
  | _ :: _, [] => False

theorem FitColumns.length_eq {cs : List Column} {cells : Cells} (h : FitColumns cs cells) :
    cells.length = cs.length := by
  induction cs generalizing cells with
  | nil =>
    cases cells with
    | nil => rfl
    | cons _ _ => exact h.elim
  | cons c cs ih =>
    cases cells with
    | nil => exact h.elim
    | cons cell cells => simp [ih h.2]

theorem fitColumns_replicate_none (cs : List Column) :
    FitColumns cs (List.replicate cs.length none) := by
  induction cs with
  | nil => trivial
  | cons c cs ih => exact ⟨by simp, ih⟩

theorem FitColumns.set {cs : List Column} {cells : Cells} (h : FitColumns cs cells) (i : Nat)
    {c : Column} (hc : cs[i]? = some c) {v : Cell} (hv : v.fits c.type = true) :
    FitColumns cs (cells.set i (some v)) := by
  induction cs generalizing cells i with
  | nil => simp at hc
  | cons d cs ih =>
    cases cells with
    | nil => exact h.elim
    | cons cell cells =>
      cases i with
      | zero =>
        simp only [List.getElem?_cons_zero, Option.some.injEq] at hc
        refine ⟨?_, h.2⟩
        intro w hw
        simp only [Option.some.injEq] at hw
        rw [← hw, hc]
        exact hv
      | succ i => exact ⟨h.1, ih h.2 i (by simpa using hc)⟩

/--
A row for a write: one cell for each column of its table, and the names of fields that belong to no
column.
-/
structure Draft where
  schema : TableSchema
  cells : Cells
  unresolved : List String
  fitColumns : FitColumns schema.columns cells

namespace Draft

def empty (schema : TableSchema) : Draft where
  schema := schema
  cells := List.replicate schema.columns.length none
  unresolved := []
  fitColumns := fitColumns_replicate_none schema.columns

/--
The error of setting a cell that may not stand in a column of this type.
-/
def misfit (name : String) (type : ColumnType) (value : Cell) : StoreError :=
  match value, type with
  | .decimal _, .decimal _ _ => .decimalOutOfRange name type
  | _, _ => .typeMismatch name type value.kindName

/--
Set the cell of a column, if it may stand there.
-/
def set (d : Draft) (name : String) (value : Cell) : Except StoreError Draft :=
  match d.schema.indexOf? name with
  | none => .error (.columnNotFound name)
  | some i =>
    match hc : d.schema.columns[i]? with
    | none => .error (.columnNotFound name)
    | some c =>
      if hv : value.fits c.type = true then
        .ok { d with
          cells := d.cells.set i (some value)
          fitColumns := d.fitColumns.set i hc hv }
      else
        .error (misfit name c.type value)

/--
Note a field that belongs to no column. The store turns down a write that has one.
-/
def markUnresolved (d : Draft) (name : String) : Draft :=
  { d with unresolved := d.unresolved ++ [name] }

def get? (d : Draft) (name : String) : Option Cell :=
  match d.schema.indexOf? name with
  | none => none
  | some i => d.cells[i]?.join

def isSet (d : Draft) (name : String) : Bool :=
  (d.get? name).isSome

def setCells (d : Draft) : List (Column × Cell) :=
  (d.schema.columns.zip d.cells).filterMap fun (c, cell) => cell.map fun v => (c, v)

/--
The cells that are set and the fields that belong to no column.
-/
def text (d : Draft) : String :=
  ", ".intercalate
    ((d.setCells.map fun (c, v) => c.name ++ "=" ++ v.textIn c.type)
      ++ d.unresolved.map fun name => name ++ "=?")

end Draft

end KeyedTables
