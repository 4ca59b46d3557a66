import KeyedTables.Proofs.Store.Effects

/-!
This module contains what lists of writes leave as it is. They find the same tables and addresses
as before, a row that none of them is for stays, and only deletes take rows away. A store is known
by its tables and the rows in them.
-/

namespace KeyedTables

theorem Write.isSome_of_change {w : Write} {old? new? : Option Cells} (hkind : w.kind ≠ .delete)
    (h : w.change old? = .ok new?) : new?.isSome := by
  unfold change at h
  grind

namespace Store

variable {s s' : Store} {a : Address} {v w : Write} {ws : List Write}

theorem target_appliedAll (s : Store) (ws : List Write) (w : Write) :
    (s.appliedAll ws).target w = s.target w := by
  unfold target
  rw [openTable_appliedAll]

theorem Suits.appliedAll (hw : s.Suits w) (ws : List Write) : (s.appliedAll ws).Suits w := by
  induction ws generalizing s with
  | nil => exact hw
  | cons v ws ih => exact ih (hw.applied v)

theorem Admits.appliedAll (hw : s.Admits (.apply w)) (ws : List Write) :
    (s.appliedAll ws).Admits (.apply w) := by
  induction ws generalizing s with
  | nil => exact hw
  | cons v ws ih => exact ih (hw.applied v)

theorem Sound.applied (hs : s.Sound) (hw : s.Suits w) : (s.applied w).Sound := by
  cases happly : s.apply w with
  | error status => rwa [applied_of_error happly]
  | ok t =>
    rw [applied_of_ok happly]
    exact hs.apply hw happly

theorem Sound.appliedAll (hs : s.Sound) (hws : ∀ w ∈ ws, s.Suits w) : (s.appliedAll ws).Sound := by
  induction ws generalizing s with
  | nil => exact hs
  | cons w ws ih =>
    obtain ⟨hw, hws⟩ := List.forall_mem_cons.1 hws
    exact ih (hs.applied hw) fun v hv => (hws v hv).applied w

theorem call_apply (s : Store) (w : Write) : (s.call (.apply w)).2 = s.applied w := by
  unfold call applied
  dsimp only
  cases s.apply w <;> rfl

theorem Reachable.applied (hs : s.Reachable) (hw : s.Admits (.apply w)) :
    (s.applied w).Reachable := by
  rw [← call_apply]
  exact hs.call hw

theorem Reachable.appliedAll (hs : s.Reachable) (hws : ∀ w ∈ ws, s.Admits (.apply w)) :
    (s.appliedAll ws).Reachable := by
  induction ws generalizing s with
  | nil => exact hs
  | cons w ws ih =>
    obtain ⟨hw, hws⟩ := List.forall_mem_cons.1 hws
    exact ih (hs.applied hw) fun v hv => (hws v hv).applied w

theorem ne_delete_of_kinds {kind : WriteKind} (hkind : kind ≠ .delete)
    (hkinds : ∀ w ∈ ws, w.kind = kind) : ∀ w ∈ ws, w.kind ≠ .delete := by
  intro w hw
  rw [hkinds w hw]
  exact hkind

theorem rowAt_appliedAll_of_ne (hws : ∀ w ∈ ws, s.Suits w) (h : ∀ w ∈ ws, s.target w ≠ .ok a) :
    (s.appliedAll ws).rowAt a = s.rowAt a := by
  induction ws generalizing s with
  | nil => rfl
  | cons w ws ih =>
    obtain ⟨hw, hws⟩ := List.forall_mem_cons.1 hws
    obtain ⟨hne, h⟩ := List.forall_mem_cons.1 h
    rw [appliedAll_cons, ih (fun v hv => (hws v hv).applied w), rowAt_applied_of_ne hw hne]
    intro v hv
    rw [target_applied]
    exact h v hv

/--
Only deletes take rows away.
-/
theorem isSome_rowAt_applied (hw : s.Suits w) (hkind : w.kind ≠ .delete)
    (h : (s.rowAt a).isSome) : ((s.applied w).rowAt a).isSome := by
  by_cases htarget : s.target w = .ok a
  . cases hchange : w.change (s.rowAt a) with
    | error status =>
      rwa [applied_of_error (by rw [apply_of_target_ok hw htarget, hchange]; rfl)]
    | ok row? =>
      rw [rowAt_applied_of_change hw htarget hchange, if_pos rfl]
      exact Write.isSome_of_change hkind hchange
  . rwa [rowAt_applied_of_ne hw htarget]

theorem isSome_rowAt_appliedAll (hws : ∀ w ∈ ws, s.Suits w) (hkinds : ∀ w ∈ ws, w.kind ≠ .delete)
    (h : (s.rowAt a).isSome) : ((s.appliedAll ws).rowAt a).isSome := by
  induction ws generalizing s with
  | nil => exact h
  | cons w ws ih =>
    obtain ⟨hw, hws⟩ := List.forall_mem_cons.1 hws
    obtain ⟨hkind, hkinds⟩ := List.forall_mem_cons.1 hkinds
    exact ih (fun v hv => (hws v hv).applied w) hkinds (isSome_rowAt_applied hw hkind h)

/-!
# Rows that are there
-/

/--
The row that a write is for is there.
-/
def HasRow (s : Store) (w : Write) : Prop :=
  ∃ a, s.target w = .ok a ∧ (s.rowAt a).isSome

theorem HasRow.applied (h : s.HasRow w) (hv : s.Suits v) (hkind : v.kind ≠ .delete) :
    (s.applied v).HasRow w := by
  obtain ⟨a, ha, hrow⟩ := h
  exact ⟨a, (target_applied s v w).trans ha, isSome_rowAt_applied hv hkind hrow⟩

theorem HasRow.appliedAll (h : s.HasRow w) (hws : ∀ v ∈ ws, s.Suits v)
    (hkinds : ∀ v ∈ ws, v.kind ≠ .delete) : (s.appliedAll ws).HasRow w := by
  obtain ⟨a, ha, hrow⟩ := h
  exact ⟨a, (target_appliedAll s ws w).trans ha, isSome_rowAt_appliedAll hws hkinds hrow⟩

theorem hasRow_of_apply (hw : s.Suits w) (hkind : w.kind ≠ .delete) (h : s.apply w = .ok s') :
    (s.applied w).HasRow w := by
  obtain ⟨a, row?, ha, hchange⟩ := exists_change_of_apply hw h
  refine ⟨a, (target_applied s w w).trans ha, ?_⟩
  rw [rowAt_applied_of_change hw ha hchange, if_pos rfl]
  exact Write.isSome_of_change hkind hchange

theorem hasRow_appliedAll (hws : ∀ w ∈ ws, s.Suits w) (hkinds : ∀ w ∈ ws, w.kind ≠ .delete)
    (htaken : s.rejections ws = []) : ∀ w ∈ ws, (s.appliedAll ws).HasRow w := by
  induction ws generalizing s with
  | nil => simp
  | cons w ws ih =>
    obtain ⟨hw, hws⟩ := List.forall_mem_cons.1 hws
    obtain ⟨hkind, hkinds⟩ := List.forall_mem_cons.1 hkinds
    have hws' : ∀ v ∈ ws, (s.applied w).Suits v := fun v hv => (hws v hv).applied w
    cases happly : s.apply w with
    | error status =>
      rw [rejections_cons_of_error happly] at htaken
      contradiction
    | ok t =>
      rw [rejections_cons_of_ok happly] at htaken
      rw [appliedAll_cons, List.forall_mem_cons]
      exact ⟨(hasRow_of_apply hw hkind happly).appliedAll hws' hkinds, ih hws' hkinds htaken⟩

theorem HasRow.apply_upsert (h : s.HasRow w) (hw : s.Suits w) (hkind : w.kind = .upsert) :
    ∃ s', s.apply w = .ok s' := by
  obtain ⟨a, ha, hrow⟩ := h
  obtain ⟨old, hold⟩ := Option.isSome_iff_exists.1 hrow
  rw [apply_of_target_ok hw ha, hold]
  unfold Write.change
  rw [hkind]
  exact ⟨_, rfl⟩

theorem HasRow.apply_insert (h : s.HasRow w) (hw : s.Suits w) (hkind : w.kind = .insert) :
    s.apply w = .error ⟨.alreadyPresent, "key already present"⟩ := by
  obtain ⟨a, ha, hrow⟩ := h
  obtain ⟨old, hold⟩ := Option.isSome_iff_exists.1 hrow
  rw [apply_of_target_ok hw ha, hold]
  unfold Write.change
  rw [hkind]
  rfl

/-!
# Stores by their rows
-/

theorem handles_applied (s : Store) (w : Write) :
    (s.applied w).tables.map (·.handle) = s.tables.map (·.handle)
      ∧ (s.applied w).nextId = s.nextId := by
  cases happly : s.apply w with
  | error status =>
    rw [applied_of_error happly]
    exact ⟨rfl, rfl⟩
  | ok t =>
    obtain ⟨-, -, rows, -, -, -, -, rfl⟩ := exists_of_apply_eq_ok happly
    rw [applied_of_ok happly]
    exact ⟨handles_replaceRows s w.table rows, rfl⟩

theorem handles_appliedAll (s : Store) (ws : List Write) :
    (s.appliedAll ws).tables.map (·.handle) = s.tables.map (·.handle)
      ∧ (s.appliedAll ws).nextId = s.nextId := by
  induction ws generalizing s with
  | nil => exact ⟨rfl, rfl⟩
  | cons w ws ih =>
    obtain ⟨hhandles, hid⟩ := handles_applied s w
    rw [appliedAll_cons, (ih _).1, (ih _).2]
    exact ⟨hhandles, hid⟩

/--
A store that has the same tables, and the same rows in them, is the same store.
-/
theorem Reachable.ext (hs : s.Reachable) (hs' : s'.Reachable)
    (hhandles : s'.tables.map (·.handle) = s.tables.map (·.handle)) (hid : s'.nextId = s.nextId)
    (hrows : ∀ a, s'.rowAt a = s.rowAt a) : s' = s := by
  have hlength : s'.tables.length = s.tables.length := by
    simpa using congrArg List.length hhandles
  have htables : s'.tables = s.tables := by
    apply List.ext_getElem hlength
    intro i hi' hi
    have hhandle : s'.tables[i].handle = s.tables[i].handle := by
      simpa [hi', hi] using congrArg (·[i]?) hhandles
    have hfind' := hs'.find?_of_mem (List.getElem_mem hi')
    have hfind := hs.find?_of_mem (List.getElem_mem hi)
    have hsame : s'.tables[i].rows = s.tables[i].rows := by
      apply Rows.ext_find?
      intro key
      have hrow := hrows (s.tables[i].handle.name, key)
      unfold rowAt at hrow
      rw [← hhandle, hfind', hhandle, hfind] at hrow
      exact hrow
    generalize s'.tables[i] = t' at *
    generalize s.tables[i] = t at *
    cases t'
    cases t
    dsimp only at hhandle hsame
    rw [hhandle, hsame]
  cases s'
  cases s
  dsimp only at htables hid
  rw [htables, hid]

end Store

end KeyedTables
