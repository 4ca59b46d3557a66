import Mathlib.Data.List.Find
import KeyedTables.Proofs.Store.Runs

/-!
This module contains what upserts that are all taken leave in a store. The row that each of them is
for is there, and a cell of it was set by the last of them that is for this row and sets it, or is
the one that was there before.
-/

namespace KeyedTables

namespace Rows

def cellAt (rows : Rows) (key : List UInt8) (i : Nat) : Option Cell :=
  (rows.find? key).bind (·[i]?.join)

end Rows

namespace Store

variable {s s' : Store} {a : Address} {t : TableHandle} {rows rows' : Rows} {w : Write}
variable {ws : List Write} {key : List UInt8} {cells : Cells}

/-!
# Cells of a store
-/

theorem rejections_of_hasRow (hws : ∀ w ∈ ws, s.Suits w) (hkinds : ∀ w ∈ ws, w.kind = .upsert)
    (h : ∀ w ∈ ws, s.HasRow w) : s.rejections ws = [] := by
  induction ws generalizing s with
  | nil => rfl
  | cons w ws ih =>
    obtain ⟨hw, hws⟩ := List.forall_mem_cons.1 hws
    obtain ⟨hkind, hkinds⟩ := List.forall_mem_cons.1 hkinds
    obtain ⟨hrow, h⟩ := List.forall_mem_cons.1 h
    obtain ⟨t, happly⟩ := hrow.apply_upsert hw hkind
    rw [rejections_cons_of_ok happly]
    apply ih (fun v hv => (hws v hv).applied w) hkinds
    intro v hv
    exact (h v hv).applied hw (by rw [hkind]; decide)

/--
The cell of a row that a store has at an address.
-/
def cellAt (s : Store) (a : Address) (i : Nat) : Option Cell :=
  (s.rowAt a).bind (·[i]?.join)

/--
The cell of a row after an upsert, if it is for this row.
-/
def overwritten (s : Store) (a : Address) (i : Nat) (cell : Option Cell) (w : Write) :
    Option Cell :=
  if s.target w = .ok a then w.draft.cells[i]?.join <|> cell else cell

theorem cell_of_change {old? new? : Option Cells} (hkind : w.kind = .upsert)
    (h : w.change old? = .ok new?)
    (hlength : ∀ old, old? = some old → w.draft.cells.length = old.length) (i : Nat) :
    new?.bind (·[i]?.join) = (w.draft.cells[i]?.join <|> old?.bind (·[i]?.join)) := by
  unfold Write.change at h
  cases old? with
  | some old =>
    simp only [hkind, Except.ok.injEq] at h
    rw [← h]
    exact join_getElem?_merge (hlength old rfl) i
  | none =>
    simp only [hkind] at h
    split at h
    . contradiction
    . rw [Except.ok.injEq] at h
      rw [← h]
      simp

theorem length_of_rowAt {cells : Cells} (hs : s.Sound) (hopen : s.openTable a.1 = .ok t)
    (h : s.rowAt a = some cells) : cells.length = t.schema.columns.length := by
  obtain ⟨rows, hfind⟩ := find?_of_openTable hopen
  unfold rowAt at h
  rw [hfind, Option.bind_some] at h
  exact (hs _ _ hfind _ (Rows.mem_of_find? h)).fitColumns.length_eq

theorem cellAt_applied (hs : s.Sound) (hw : s.Suits w) (hkind : w.kind = .upsert)
    (h : s.apply w = .ok s') (a : Address) (i : Nat) :
    (s.applied w).cellAt a i = s.overwritten a i (s.cellAt a i) w := by
  obtain ⟨b, row?, hb, hchange⟩ := exists_change_of_apply hw h
  unfold cellAt overwritten
  by_cases hab : s.target w = .ok a
  . have : a = b := by simpa [hb] using hab.symm
    rw [if_pos hab, this, rowAt_applied_of_change hw hb hchange, if_pos rfl]
    apply cell_of_change hkind hchange
    intro old hold
    obtain ⟨t, hfind, htable, -⟩ := exists_of_target_eq_ok hb
    rw [length_of_rowAt hs (openTable_of_find? hfind) hold, w.draft.fitColumns.length_eq]
    rw [hw t (by rw [← htable, hfind])]
  . rw [if_neg hab, rowAt_applied_of_ne hw hab]

theorem overwritten_applied (s : Store) (v : Write) :
    (s.applied v).overwritten = s.overwritten := by
  funext a i cell w
  unfold overwritten
  rw [target_applied]

theorem cellAt_appliedAll (hs : s.Sound) (hws : ∀ w ∈ ws, s.Suits w)
    (hkinds : ∀ w ∈ ws, w.kind = .upsert) (htaken : s.rejections ws = []) (a : Address) (i : Nat) :
    (s.appliedAll ws).cellAt a i = ws.foldl (s.overwritten a i) (s.cellAt a i) := by
  induction ws generalizing s with
  | nil => rfl
  | cons w ws ih =>
    obtain ⟨hw, hws⟩ := List.forall_mem_cons.1 hws
    obtain ⟨hkind, hkinds⟩ := List.forall_mem_cons.1 hkinds
    cases happly : s.apply w with
    | error status =>
      rw [rejections_cons_of_error happly] at htaken
      contradiction
    | ok t =>
      rw [rejections_cons_of_ok happly] at htaken
      have hrest := ih (hs.applied hw) (fun v hv => (hws v hv).applied w) hkinds htaken
      rw [overwritten_applied] at hrest
      rw [appliedAll_cons, hrest, List.foldl_cons, cellAt_applied hs hw hkind happly]

/-!
# Upserts to one table
-/

structure Upserts (t : TableHandle) (w : Write) : Prop where
  kind_eq : w.kind = .upsert
  table_eq : w.table = t.name
  schema_eq : w.draft.schema = t.schema

theorem Upserts.suits (hw : Upserts t w) (hfind : s.find? t.name = some ⟨t, rows⟩) :
    s.Suits w := by
  intro u hu
  rw [hw.table_eq, hfind, Option.some.injEq] at hu
  rw [← hu]
  exact hw.schema_eq

theorem code_of_applyToRows_upsert {schema : TableSchema} {status : Status}
    (h : applyToRows schema rows .upsert key cells = .error status) :
    status.code = .invalidArgument := by
  unfold applyToRows at h
  cases hfind : rows.find? key with
  | some old => simp [hfind] at h
  | none =>
    simp only [hfind] at h
    unfold insertRow at h
    split at h
    . rw [Except.error.injEq] at h
      rw [← h]
      rfl
    . contradiction

/--
An upsert that is turned down is turned down for another reason than that the row is present.
-/
theorem code_ne_of_upsert {status : Status} (hw : w.kind = .upsert)
    (h : s.apply w = .error status) : status.code ≠ .alreadyPresent := by
  unfold apply at h
  rw [hw] at h
  split at h
  . rw [Except.error.injEq] at h
    simp [← h]
  . split at h
    . rw [Except.error.injEq] at h
      simp [← h, invalid]
    . split at h
      . rw [Except.error.injEq] at h
        simp [← h, invalid]
      . split at h
        . next status' hrows =>
          rw [Except.error.injEq] at h
          rw [h] at hrows
          simp [code_of_applyToRows_upsert hrows]
        . contradiction

/--
The cell of a key after cells of a write were put over it, if they are for this key.
-/
def overwrite (schema : TableSchema) (key : List Cell) (i : Nat) (cell : Option Cell)
    (cells : Cells) : Option Cell :=
  if schema.keyOf cells = key then cells[i]?.join <|> cell else cell

theorem foldl_overwrite_of_none {schema : TableSchema} {key : List Cell} {i : Nat}
    {cell : Option Cell} {all : List Cells}
    (h : ∀ cells ∈ all, schema.keyOf cells = key → cells[i]?.join = none) :
    all.foldl (overwrite schema key i) cell = cell := by
  induction all generalizing cell with
  | nil => rfl
  | cons cells all ih =>
    have hcells : overwrite schema key i cell cells = cell := by
      unfold overwrite
      split
      . next hkey => simp [h cells List.mem_cons_self hkey]
      . rfl
    rw [List.foldl_cons, hcells]
    exact ih fun d hd => h d (List.mem_cons_of_mem cells hd)

/--
The rows after others of these cells were put over them, one after the other.
-/
structure Overwritten (schema : TableSchema) (all : List Cells) (rows rows' : Rows) : Prop where
  isSome_find? : ∀ x, (rows.find? x).isSome → (rows'.find? x).isSome
  keyOf : ∀ cells ∈ all, schema.KeyOf cells (schema.keyOf cells)
  isSome_find?_keyOf : ∀ cells ∈ all,
    (rows'.find? (Key.encodeKey (schema.keyOf cells))).isSome
  cellAt_eq : ∀ key i, schema.FitsKey key → rows'.cellAt (Key.encodeKey key) i
    = all.foldl (overwrite schema key i) (rows.cellAt (Key.encodeKey key) i)

theorem rowAt_eq {x : List UInt8} (hfind : s.find? t.name = some ⟨t, rows⟩) :
    s.rowAt (t.name, x) = rows.find? x := by
  unfold rowAt
  rw [hfind]
  rfl

theorem appliedAll_upserts (hs : s.Sound) (hfind : s.find? t.name = some ⟨t, rows⟩)
    (hws : ∀ w ∈ ws, Upserts t w) (htaken : s.rejections ws = []) :
    ∃ rows', (s.appliedAll ws).Sound ∧ (s.appliedAll ws).find? t.name = some ⟨t, rows'⟩
      ∧ Overwritten t.schema (ws.map (·.draft.cells)) rows rows' := by
  have hsuits : ∀ w ∈ ws, s.Suits w := fun w hw => (hws w hw).suits hfind
  have hkinds : ∀ w ∈ ws, w.kind = .upsert := fun w hw => (hws w hw).kind_eq
  have hnot := ne_delete_of_kinds (by decide) hkinds
  have hopen : (s.appliedAll ws).openTable t.name = .ok t := by
    rw [openTable_appliedAll]
    exact openTable_of_find? hfind
  obtain ⟨rows', hfind'⟩ := find?_of_openTable hopen
  -- where the row of each write is, before the writes and after them
  have hrow : ∀ w ∈ ws, t.schema.KeyOf w.draft.cells (t.schema.keyOf w.draft.cells)
      ∧ s.target w = .ok (t.name, Key.encodeKey (t.schema.keyOf w.draft.cells))
      ∧ (rows'.find? (Key.encodeKey (t.schema.keyOf w.draft.cells))).isSome := by
    intro w hw
    obtain ⟨a, ha, hsome⟩ := hasRow_appliedAll hsuits hnot htaken w hw
    rw [target_appliedAll] at ha
    obtain ⟨hkey, haddress⟩ := keyOf_of_target (hsuits w hw) ha
    rw [(hws w hw).schema_eq, (hws w hw).table_eq] at *
    rw [haddress] at ha hsome
    rw [rowAt_eq hfind'] at hsome
    exact ⟨hkey, ha, hsome⟩
  refine ⟨rows', hs.appliedAll hsuits, hfind', ?_⟩
  constructor
  case isSome_find? =>
    intro x hx
    rw [← rowAt_eq hfind] at hx
    rw [← rowAt_eq hfind']
    exact isSome_rowAt_appliedAll hsuits hnot hx
  case keyOf =>
    rw [List.forall_mem_map]
    exact fun w hw => (hrow w hw).1
  case isSome_find?_keyOf =>
    rw [List.forall_mem_map]
    exact fun w hw => (hrow w hw).2.2
  case cellAt_eq =>
    intro key i hfits
    have hcell := cellAt_appliedAll hs hsuits hkinds htaken (t.name, Key.encodeKey key) i
    unfold cellAt at hcell
    rw [rowAt_eq hfind, rowAt_eq hfind'] at hcell
    unfold Rows.cellAt
    rw [hcell, List.foldl_map]
    apply List.foldl_ext
    intro cell w hw
    obtain ⟨hkey, ha, -⟩ := hrow w hw
    unfold overwritten overwrite
    simp only [ha, Except.ok.injEq, Prod.mk.injEq, true_and, Key.encodeKey_inj hkey.fitsKey hfits]

/-!
# Rows by key
-/

def rowOf? (s : Store) (t : TableHandle) (key : List Cell) : Option Cells :=
  match s.rows t.name with
  | .ok (_, rows) => rows.find? fun cells => decide (t.schema.keyOf cells = key)
  | .error _ => none

theorem rowOf?_eq (hs : s.Sound) (hfind : s.find? t.name = some ⟨t, rows⟩) {key : List Cell}
    (hkey : t.schema.FitsKey key) : s.rowOf? t key = rows.find? (Key.encodeKey key) := by
  unfold rowOf? Store.rows lookup
  rw [hfind]
  unfold Rows.toList Rows.find?
  dsimp only
  rw [List.find?_map]
  congr 1
  apply List.find?_congr
  intro e he
  have hfiles := hs t.name _ hfind e he
  rw [Function.comp_apply, Bool.eq_iff_iff, decide_eq_true_iff, beq_iff_eq, hfiles.eq_encodeKey]
  exact (Key.encodeKey_inj hfiles.keyOf.fitsKey hkey).symm

end Store

end KeyedTables
