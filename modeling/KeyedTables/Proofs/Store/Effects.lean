import Mathlib.Data.List.Sort
import KeyedTables.Proofs.Store.Reachable

/-!
This module contains what a write does. It is for one row, the one filed under its key, and whether
it is taken and what it makes of this row depends on this row only. All other rows and the tables
themselves stay as they are.
-/

namespace KeyedTables

namespace Rows

variable {rows : Rows} {key other : List UInt8} {cells : Cells}

theorem nodup_keys (rows : Rows) : (rows.entries.map (·.1)).Nodup := by
  unfold List.Nodup
  rw [List.pairwise_map]
  apply rows.ascending.imp
  intro a b hlt heq
  rw [heq] at hlt
  exact List.lt_irrefl _ hlt

theorem find?_eq_some_iff : rows.find? key = some cells ↔ (key, cells) ∈ rows.entries := by
  constructor
  . exact mem_of_find?
  . intro hmem
    cases hfind : rows.entries.find? (·.1 == key) with
    | none =>
      rw [List.find?_eq_none] at hfind
      exact absurd (by simp) (hfind _ hmem)
    | some e =>
      have hkey : e.1 = key := by simpa using List.find?_some hfind
      have he : e = (key, cells) :=
        List.inj_on_of_nodup_map rows.nodup_keys (List.mem_of_find?_eq_some hfind) hmem hkey
      unfold find?
      rw [hfind, he]
      rfl

theorem ext_find? {a b : Rows} (h : ∀ key, a.find? key = b.find? key) : a = b := by
  have hmem : ∀ e, e ∈ a.entries ↔ e ∈ b.entries := by
    rintro ⟨key, cells⟩
    rw [← find?_eq_some_iff, ← find?_eq_some_iff, h]
  have hperm : a.entries.Perm b.entries :=
    (List.perm_ext_iff_of_nodup (List.Nodup.of_map _ a.nodup_keys)
      (List.Nodup.of_map _ b.nodup_keys)).2 hmem
  have hentries : a.entries = b.entries := by
    apply hperm.eq_of_pairwise _ a.ascending b.ascending
    intro c d _ _ hcd hdc
    exact absurd (List.lt_trans hcd hdc) (List.lt_irrefl _)
  cases a
  cases b
  cases hentries
  rfl

/--
File a row under a key, or take away what is filed there.
-/
def put (rows : Rows) (key : List UInt8) : Option Cells → Rows
  | some cells => rows.insert key cells
  | none => rows.erase key

theorem find?_put (row? : Option Cells) :
    (rows.put key row?).find? other = if other = key then row? else rows.find? other := by
  cases row? with
  | some cells => apply find?_insert
  | none => apply find?_erase

theorem put_comm (h : key ≠ other) (p q : Option Cells) :
    (rows.put key p).put other q = (rows.put other q).put key p := by
  apply ext_find?
  intro x
  simp only [find?_put]
  by_cases hkey : x = key
  . simp [hkey, h]
  . simp [hkey]

end Rows

/--
Where a row is filed: the name of its table and its encoded key.
-/
abbrev Address := String × List UInt8

/--
What a write makes of the row that is there for its key, or of there being none.
-/
def Write.change (w : Write) : Option Cells → Except Status (Option Cells)
  | some old =>
    match w.kind with
    | .insert => .error ⟨.alreadyPresent, "key already present"⟩
    | .update | .upsert => .ok (some (Store.merge old w.draft.cells))
    | .delete => .ok none
  | none =>
    match w.kind with
    | .insert | .upsert =>
      match Store.missingColumn? w.draft.schema.columns w.draft.cells with
      | some name => .error (Store.invalid ("column '" ++ name ++ "' is not nullable"))
      | none => .ok (some w.draft.cells)
    | .update | .delete => .error ⟨.notFound, "key not found"⟩

namespace Store

/-!
# Rows of a store
-/

def rowAt (s : Store) (a : Address) : Option Cells :=
  (s.find? a.1).bind (·.rows.find? a.2)

/--
The store with another row, or none, at an address.
-/
def putRow (s : Store) (a : Address) (row? : Option Cells) : Store :=
  match s.find? a.1 with
  | some t => s.replaceRows a.1 (t.rows.put a.2 row?)
  | none => s

variable {s s' : Store} {a b : Address} {row? : Option Cells}

theorem putRow_of_some {t : StoredTable} (h : s.find? a.1 = some t) :
    s.putRow a row? = s.replaceRows a.1 (t.rows.put a.2 row?) := by
  unfold putRow
  rw [h]

theorem putRow_of_none (h : s.find? a.1 = none) : s.putRow a row? = s := by
  unfold putRow
  rw [h]

theorem find?_putRow (s : Store) (a : Address) (row? : Option Cells) (name : String) :
    (s.putRow a row?).find? name
      =
    if name = a.1 then (s.find? name).map fun t => { t with rows := t.rows.put a.2 row? }
    else s.find? name := by
  cases hfind : s.find? a.1 with
  | some t =>
    rw [putRow_of_some hfind, find?_replaceRows, hfind]
    split
    . next h => rw [h, hfind]; rfl
    . rfl
  | none =>
    rw [putRow_of_none hfind]
    split
    . next h => rw [h, hfind]; rfl
    . rfl

theorem rowAt_putRow (h : (s.find? a.1).isSome) :
    (s.putRow a row?).rowAt b = if b = a then row? else s.rowAt b := by
  obtain ⟨t, ht⟩ := Option.isSome_iff_exists.1 h
  unfold rowAt
  rw [find?_putRow]
  by_cases hname : b.1 = a.1
  . simp [hname, ht, Rows.find?_put, Prod.ext_iff]
  . simp [hname, Prod.ext_iff]

theorem replaceRows_replaceRows (s : Store) (name : String) (p q : Rows) :
    (s.replaceRows name p).replaceRows name q = s.replaceRows name q := by
  unfold replaceRows
  simp only [List.map_map, Store.mk.injEq, and_true]
  apply List.map_congr_left
  intro t _
  dsimp only [Function.comp_apply]
  split <;> simp_all

theorem replaceRows_comm {name other : String} (h : name ≠ other) (p q : Rows) :
    (s.replaceRows name p).replaceRows other q = (s.replaceRows other q).replaceRows name p := by
  unfold replaceRows
  simp only [List.map_map, Store.mk.injEq, and_true]
  apply List.map_congr_left
  intro t _
  dsimp only [Function.comp_apply]
  by_cases hname : t.handle.name = name
  . simp [hname, h]
  . by_cases hother : t.handle.name = other
    . simp [hother, h.symm]
    . simp [hname, hother]

theorem putRow_comm_of_table_ne (hname : a.1 ≠ b.1) (p q : Option Cells) :
    (s.putRow a p).putRow b q = (s.putRow b q).putRow a p := by
  have hleft : (s.putRow a p).find? b.1 = s.find? b.1 := by
    rw [find?_putRow, if_neg (Ne.symm hname)]
  have hright : (s.putRow b q).find? a.1 = s.find? a.1 := by
    rw [find?_putRow, if_neg hname]
  cases hfind : s.find? a.1 with
  | none => rw [putRow_of_none hfind, putRow_of_none (hright.trans hfind)]
  | some t =>
    cases hother : s.find? b.1 with
    | none => rw [putRow_of_none hother, putRow_of_none (hleft.trans hother)]
    | some u =>
      rw [putRow_of_some (hleft.trans hother), putRow_of_some (hright.trans hfind)]
      rw [putRow_of_some hfind, putRow_of_some hother, replaceRows_comm hname]

theorem putRow_comm_of_key_ne (hname : a.1 = b.1) (hkey : a.2 ≠ b.2) (p q : Option Cells) :
    (s.putRow a p).putRow b q = (s.putRow b q).putRow a p := by
  cases hfind : s.find? a.1 with
  | none =>
    have hother := hname ▸ hfind
    rw [putRow_of_none hfind, putRow_of_none hother, putRow_of_none hfind]
  | some t =>
    have hother := hname ▸ hfind
    have hleft : (s.putRow a p).find? b.1 = some { t with rows := t.rows.put a.2 p } := by
      rw [find?_putRow, if_pos hname.symm, hother]
      rfl
    have hright : (s.putRow b q).find? a.1 = some { t with rows := t.rows.put b.2 q } := by
      rw [find?_putRow, if_pos hname, hfind]
      rfl
    rw [putRow_of_some hleft, putRow_of_some hright, putRow_of_some hfind, putRow_of_some hother]
    rw [hname, replaceRows_replaceRows, replaceRows_replaceRows, Rows.put_comm hkey]

/--
Changes to different rows commute.
-/
theorem putRow_comm (h : a ≠ b) (p q : Option Cells) :
    (s.putRow a p).putRow b q = (s.putRow b q).putRow a p := by
  by_cases hname : a.1 = b.1
  . apply putRow_comm_of_key_ne hname
    intro hkey
    exact h (Prod.ext hname hkey)
  . apply putRow_comm_of_table_ne hname

/-!
# Writes
-/

/--
The address of the row that a write is for, or why it is turned down whatever rows there are.
-/
def target (s : Store) (w : Write) : Except Status Address :=
  match s.openTable w.table with
  | .error e => .error ⟨.notFound, e.message⟩
  | .ok t =>
    match w.draft.unresolved with
    | name :: _ => .error (invalid ("unknown column: " ++ name))
    | [] =>
      match Key.encode t.schema w.draft.cells with
      | .error name => .error (invalid ("missing key column: " ++ name))
      | .ok key => .ok (w.table, key)

/--
Whether a write is taken, and if not, why.
-/
def outcome (s : Store) (w : Write) : Except Status Unit :=
  (s.apply w).map fun _ => ()

variable {w v : Write} {status : Status}

theorem exists_of_target_eq_ok (h : s.target w = .ok a) :
    ∃ t, s.find? a.1 = some t ∧ a.1 = w.table ∧ w.draft.unresolved = []
      ∧ Key.encode t.handle.schema w.draft.cells = .ok a.2 := by
  unfold target openTable lookup at h
  cases hfind : s.find? w.table with
  | none => simp [hfind] at h
  | some t =>
    cases hunresolved : w.draft.unresolved with
    | cons name names => simp [hfind, hunresolved] at h
    | nil =>
      cases hkey : Key.encode t.handle.schema w.draft.cells with
      | error name => simp [hfind, hunresolved, hkey] at h
      | ok key =>
        have ha : (w.table, key) = a := by simpa [hfind, hunresolved, hkey] using h
        rw [← ha]
        exact ⟨t, hfind, rfl, rfl, hkey⟩

theorem keyOf_of_target (hw : s.Suits w) (h : s.target w = .ok a) :
    w.draft.schema.KeyOf w.draft.cells (w.draft.schema.keyOf w.draft.cells)
      ∧ a = (w.table, Key.encodeKey (w.draft.schema.keyOf w.draft.cells)) := by
  obtain ⟨t, hfind, htable, -, hkey⟩ := exists_of_target_eq_ok h
  rw [htable] at hfind
  rw [← hw t hfind] at hkey
  obtain ⟨hkeyOf, ha⟩ := TableSchema.keyOf_of_encode w.draft.fitColumns hkey
  exact ⟨hkeyOf, Prod.ext htable ha⟩

theorem apply_of_target_error (h : s.target w = .error status) : s.apply w = .error status := by
  unfold target openTable at h
  unfold apply
  cases hlookup : s.lookup w.table with
  | error e => simpa [hlookup] using h
  | ok t =>
    cases hunresolved : w.draft.unresolved with
    | cons name names => simpa [hlookup, hunresolved] using h
    | nil =>
      cases hkey : Key.encode t.handle.schema w.draft.cells with
      | error name => simpa [hlookup, hunresolved, hkey] using h
      | ok key => simp [hlookup, hunresolved, hkey] at h

theorem applyToRows_eq (w : Write) (rows : Rows) (key : List UInt8) :
    applyToRows w.draft.schema rows w.kind key w.draft.cells
      = (w.change (rows.find? key)).map (rows.put key) := by
  unfold applyToRows Write.change insertRow
  cases rows.find? key with
  | some old => cases w.kind <;> rfl
  | none =>
    cases w.kind with
    | update => rfl
    | delete => rfl
    | insert => cases missingColumn? w.draft.schema.columns w.draft.cells <;> rfl
    | upsert => cases missingColumn? w.draft.schema.columns w.draft.cells <;> rfl

/--
A write that has an address changes the row there, or is turned down for it.
-/
theorem apply_of_target_ok (hw : s.Suits w) (h : s.target w = .ok a) :
    s.apply w = (w.change (s.rowAt a)).map (s.putRow a) := by
  obtain ⟨t, hfind, htable, hunresolved, hkey⟩ := exists_of_target_eq_ok h
  rw [htable] at hfind
  have hrow : s.rowAt a = t.rows.find? a.2 := by simp [rowAt, htable, hfind]
  have hput : ∀ row?, s.putRow a row? = s.replaceRows w.table (t.rows.put a.2 row?) := by
    intro row?
    rw [putRow_of_some (by rw [htable, hfind]), htable]
  unfold apply lookup
  rw [hfind, hunresolved]
  dsimp only
  rw [hkey, ← hw t hfind]
  dsimp only
  rw [applyToRows_eq, hrow]
  cases w.change (t.rows.find? a.2) with
  | error status => rfl
  | ok row? => exact congrArg Except.ok (hput row?).symm

theorem exists_change_of_apply (hw : s.Suits w) (h : s.apply w = .ok s') :
    ∃ a row?, s.target w = .ok a ∧ w.change (s.rowAt a) = .ok row? := by
  cases htarget : s.target w with
  | error status =>
    rw [apply_of_target_error htarget] at h
    contradiction
  | ok a =>
    rw [apply_of_target_ok hw htarget] at h
    cases hchange : w.change (s.rowAt a) with
    | error status => simp [hchange, Except.map] at h
    | ok row? => exact ⟨a, row?, rfl, hchange⟩

theorem applied_of_change (hw : s.Suits w) (h : s.target w = .ok a)
    (hchange : w.change (s.rowAt a) = .ok row?) : s.applied w = s.putRow a row? := by
  apply applied_of_ok
  rw [apply_of_target_ok hw h, hchange]
  rfl

theorem rowAt_applied_of_change (hw : s.Suits w) (h : s.target w = .ok a)
    (hchange : w.change (s.rowAt a) = .ok row?) :
    (s.applied w).rowAt b = if b = a then row? else s.rowAt b := by
  obtain ⟨t, hfind, -⟩ := exists_of_target_eq_ok h
  rw [applied_of_change hw h hchange, rowAt_putRow (by rw [hfind]; rfl)]

theorem rowAt_applied_of_ne (hw : s.Suits w) (h : s.target w ≠ .ok a) :
    (s.applied w).rowAt a = s.rowAt a := by
  cases htarget : s.target w with
  | error status => rw [applied_of_error (apply_of_target_error htarget)]
  | ok b =>
    cases hchange : w.change (s.rowAt b) with
    | error status =>
      rw [applied_of_error (by rw [apply_of_target_ok hw htarget, hchange]; rfl)]
    | ok row? =>
      have hne : a ≠ b := by
        intro hab
        rw [hab] at h
        exact h htarget
      rw [rowAt_applied_of_change hw htarget hchange, if_neg hne]

/-!
# What writes leave as it is
-/

theorem target_applied (s : Store) (v w : Write) : (s.applied v).target w = s.target w := by
  unfold target
  rw [openTable_applied]

theorem Suits.applied (hw : s.Suits w) (v : Write) : (s.applied v).Suits w := by
  intro t ht
  have hopen : s.openTable w.table = .ok t.handle := by
    rw [← openTable_applied s v]
    exact openTable_of_find? ht
  obtain ⟨rows, hfind⟩ := find?_of_openTable hopen
  have hschema := hw _ hfind
  exact hschema

theorem Admits.applied (hw : s.Admits (.apply w)) (v : Write) :
    (s.applied v).Admits (.apply w) := by
  unfold Admits at *
  simpa only [openTable_applied] using hw

theorem Admits.suits (hw : s.Admits (.apply w)) : s.Suits w :=
  fun _ ht => hw.schema_eq ht

/-!
# Outcomes
-/

theorem outcome_eq_error_iff : s.outcome w = .error status ↔ s.apply w = .error status := by
  unfold outcome
  cases s.apply w <;> simp [Except.map]

theorem outcome_of_target_ok (hw : s.Suits w) (h : s.target w = .ok a) :
    s.outcome w = (w.change (s.rowAt a)).map fun _ => () := by
  unfold outcome
  rw [apply_of_target_ok hw h]
  cases w.change (s.rowAt a) <;> rfl

theorem outcome_eq_ok_iff : s.outcome w = .ok () ↔ ∃ s', s.apply w = .ok s' := by
  unfold outcome
  cases s.apply w <;> simp [Except.map]

end Store

end KeyedTables
