import KeyedTables.Store.Basic

/-!
This module contains what can be found in filed rows and in stores after each of their operations,
and what the writes of a list do one after the other.
-/

namespace KeyedTables

namespace Rows

@[simp]
theorem find?_empty (key : List UInt8) : empty.find? key = none := by
  rfl

theorem find?_insertEntry (key : List UInt8) (cells : Cells) (entries : List FiledRow)
    (other : List UInt8) :
    ((insertEntry key cells entries).find? (·.1 == other)).map (·.2)
      =
    if other = key then some cells else (entries.find? (·.1 == other)).map (·.2) := by
  induction entries with
  | nil =>
    unfold insertEntry
    by_cases h : other = key
    . simp [h]
    . simp [h, Ne.symm h]
  | cons entry rest ih =>
    unfold insertEntry
    split
    . by_cases h : other = key
      . simp [h]
      . simp [h, Ne.symm h]
    . split
      . next heq =>
        by_cases h : other = key
        . simp [h]
        . have : entry.1 ≠ other := by
            rw [← heq]
            exact Ne.symm h
          simp [h, Ne.symm h, this]
      . next hne =>
        by_cases hentry : entry.1 = other
        . have : other ≠ key := by
            rw [← hentry]
            exact Ne.symm hne
          simp [hentry, this]
        . simpa [hentry] using ih

theorem find?_insert (rows : Rows) (key : List UInt8) (cells : Cells) (other : List UInt8) :
    (rows.insert key cells).find? other = if other = key then some cells else rows.find? other := by
  apply find?_insertEntry

theorem find?_erase (rows : Rows) (key other : List UInt8) :
    (rows.erase key).find? other = if other = key then none else rows.find? other := by
  unfold erase find?
  rw [List.find?_filter]
  by_cases h : other = key
  . simp [h]
  . rw [if_neg h]
    congr 2
    funext entry
    by_cases hentry : entry.1 = other
    . simp [hentry, h]
    . simp [hentry]

end Rows

namespace Store

@[simp]
theorem find?_empty (name : String) : empty.find? name = none := by
  rfl

theorem find?_append (s : Store) (t : StoredTable) (nextId : Nat) (name : String)
    (h : s.find? t.handle.name = none) :
    Store.find? ⟨s.tables ++ [t], nextId⟩ name
      =
    if name = t.handle.name then some t else s.find? name := by
  unfold find? at *
  rw [List.find?_append]
  by_cases hname : name = t.handle.name
  . simp [hname, h]
  . simp [hname, Ne.symm hname]

theorem find?_replaceRows (s : Store) (name : String) (rows : Rows) (other : String) :
    (s.replaceRows name rows).find? other
      =
    if other = name then (s.find? name).map fun t => { t with rows := rows }
    else s.find? other := by
  have hcomp : ∀ t : StoredTable,
      (if t.handle.name == name then { t with rows := rows } else t).handle.name
        = t.handle.name := by
    intro t
    split <;> rfl
  unfold replaceRows find?
  rw [List.find?_map]
  simp only [Function.comp_def, hcomp]
  cases hfind : s.tables.find? (·.handle.name == other) with
  | none =>
    split
    . next h => simp [← h, hfind]
    . rfl
  | some t =>
    have ht : t.handle.name = other := by simpa using List.find?_some hfind
    split
    . next h => simp [← h, hfind, ht]
    . next h => simp [ht, h]

/-!
# Lists of writes
-/

variable {s : Store} {w : Write} {ws : List Write} {status : Status}

theorem applied_of_ok {t : Store} (h : s.apply w = .ok t) : s.applied w = t := by
  unfold applied
  rw [h]

theorem applied_of_error (h : s.apply w = .error status) : s.applied w = s := by
  unfold applied
  rw [h]

@[simp]
theorem appliedAll_nil (s : Store) : s.appliedAll [] = s := by
  rfl

@[simp]
theorem appliedAll_cons (s : Store) (w : Write) (ws : List Write) :
    s.appliedAll (w :: ws) = (s.applied w).appliedAll ws := by
  rfl

theorem appliedAll_append (s : Store) (pre post : List Write) :
    s.appliedAll (pre ++ post) = (s.appliedAll pre).appliedAll post := by
  apply List.foldl_append

theorem rejections_cons_of_ok {t : Store} (h : s.apply w = .ok t) :
    s.rejections (w :: ws) = (s.applied w).rejections ws := by
  rw [applied_of_ok h]
  simp [rejections, h]

theorem rejections_cons_of_error (h : s.apply w = .error status) :
    s.rejections (w :: ws) = (w, status) :: (s.applied w).rejections ws := by
  rw [applied_of_error h]
  simp [rejections, h]

theorem length_rejections_le (s : Store) (ws : List Write) :
    (s.rejections ws).length ≤ ws.length := by
  induction ws generalizing s with
  | nil => exact Nat.le_refl 0
  | cons w ws ih =>
    cases happly : s.apply w with
    | ok t =>
      rw [rejections_cons_of_ok happly]
      exact Nat.le_succ_of_le (ih (s.applied w))
    | error status =>
      rw [rejections_cons_of_error happly]
      exact Nat.succ_le_succ (ih (s.applied w))

theorem rejections_append (s : Store) (pre post : List Write) :
    s.rejections (pre ++ post) = s.rejections pre ++ (s.appliedAll pre).rejections post := by
  induction pre generalizing s with
  | nil => rfl
  | cons w ws ih =>
    rw [List.cons_append, appliedAll_cons]
    cases happly : s.apply w with
    | ok t =>
      rw [rejections_cons_of_ok happly, rejections_cons_of_ok happly]
      exact ih (s.applied w)
    | error status =>
      rw [rejections_cons_of_error happly, rejections_cons_of_error happly, List.cons_append]
      rw [ih (s.applied w)]

end Store

end KeyedTables
