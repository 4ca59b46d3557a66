import KeyedTables.Table.Cell

/-!
This module contains the rows of a table, filed under their encoded keys in ascending order.
-/

namespace KeyedTables

/--
A row and the encoded key that it is filed under.
-/
abbrev FiledRow := List UInt8 × Cells

/--
Rows in strictly ascending order of their encoded keys.
-/
structure Rows where
  entries : List FiledRow
  ascending : entries.Pairwise (·.1 < ·.1)

namespace Rows

def empty : Rows := ⟨[], .nil⟩

def find? (rows : Rows) (key : List UInt8) : Option Cells :=
  (rows.entries.find? (·.1 == key)).map (·.2)

/--
File a row under a key, in place of the one that is there.
-/
def insertEntry (key : List UInt8) (cells : Cells) : List FiledRow → List FiledRow
  | [] => [(key, cells)]
  | entry :: rest =>
    if key < entry.1 then (key, cells) :: entry :: rest
    else if key = entry.1 then (key, cells) :: rest
    else entry :: insertEntry key cells rest

theorem mem_insertEntry {key : List UInt8} {cells : Cells} {entries : List FiledRow}
    {e : FiledRow} (h : e ∈ insertEntry key cells entries) : e = (key, cells) ∨ e ∈ entries := by
  induction entries with
  | nil => simpa [insertEntry] using h
  | cons entry rest ih =>
    unfold insertEntry at h
    split at h
    . simpa using h
    . split at h
      . rcases List.mem_cons.1 h with h | h
        . exact .inl h
        . exact .inr (List.mem_cons_of_mem _ h)
      . rcases List.mem_cons.1 h with h | h
        . exact .inr (h ▸ List.mem_cons_self)
        . rcases ih h with h | h
          . exact .inl h
          . exact .inr (List.mem_cons_of_mem _ h)

theorem pairwise_insertEntry (key : List UInt8) (cells : Cells) {entries : List FiledRow}
    (h : entries.Pairwise (·.1 < ·.1)) :
    (insertEntry key cells entries).Pairwise (·.1 < ·.1) := by
  induction entries with
  | nil => simp [insertEntry]
  | cons entry rest ih =>
    rw [List.pairwise_cons] at h
    unfold insertEntry
    split
    . next hlt =>
      refine List.pairwise_cons.2 ⟨?_, List.pairwise_cons.2 h⟩
      intro e he
      rcases List.mem_cons.1 he with rfl | he
      . exact hlt
      . exact List.lt_trans hlt (h.1 e he)
    . next hnlt =>
      split
      . next heq =>
        refine List.pairwise_cons.2 ⟨?_, h.2⟩
        intro e he
        exact heq ▸ h.1 e he
      . next hne =>
        refine List.pairwise_cons.2 ⟨?_, ih h.2⟩
        intro e he
        rcases mem_insertEntry he with rfl | he
        . exact Std.lt_of_le_of_ne (Std.not_lt.1 hnlt) (Ne.symm hne)
        . exact h.1 e he

/--
File a row under a key, in place of the one that is there.
-/
def insert (rows : Rows) (key : List UInt8) (cells : Cells) : Rows :=
  ⟨insertEntry key cells rows.entries, pairwise_insertEntry key cells rows.ascending⟩

def erase (rows : Rows) (key : List UInt8) : Rows :=
  ⟨rows.entries.filter (·.1 != key), rows.ascending.filter _⟩

def size (rows : Rows) : Nat :=
  rows.entries.length

/--
The rows in the order of their keys.
-/
def toList (rows : Rows) : List Cells :=
  rows.entries.map (·.2)

end Rows

end KeyedTables
