import KeyedTables.Proofs.Transfer.Writing
import KeyedTables.Proofs.Row.Editing

/-!
This module contains which cells the fields of a row give to the columns of their names: the last
one that has a cell there wins, and if no name repeats, the order of the fields does not matter.
-/

namespace KeyedTables

namespace Draft

variable {d d' : Draft} {i : Nat} {c : Column} {v : Value} {target : Target}
variable {entries : List (Field × Value)}

theorem join_getElem?_empty (s : TableSchema) (i : Nat) : (empty s).cells[i]?.join = none := by
  unfold empty
  rw [List.getElem?_replicate]
  split <;> rfl

/--
The cell of a column after a field was written to the column of its name.
-/
def cellAfter (c : Column) (cell : Option Cell) (e : Field × Value) : Option Cell :=
  if e.1.name = c.name then e.2.cellIn? c <|> cell else cell

theorem put_eq_ok {k : Nat} (hk : d.schema.columns[k]? = some c) (h : d.put c v target = .ok d') :
    d'.schema = d.schema
      ∧ ∀ i, d'.cells[i]?.join
        = if i = k then v.cellIn? c <|> d.cells[i]?.join else d.cells[i]?.join := by
  unfold put at h
  split at h
  . contradiction
  . next hcell =>
    rw [Except.ok.injEq] at h
    rw [← h, Value.cellIn?_eq hcell]
    refine ⟨rfl, ?_⟩
    intro i
    split <;> rfl
  . next cell hcell =>
    split at h
    . next d₁ hset =>
      obtain ⟨hschema, j, hj, hcells⟩ := set_eq_ok hset
      rw [Except.ok.injEq] at h
      rw [← h, Value.cellIn?_eq hcell]
      refine ⟨hschema, ?_⟩
      have hjk : j = k := by
        obtain ⟨e, he, hname⟩ := TableSchema.indexOf?_eq_some_iff.1 hj
        exact TableSchema.eq_of_name_eq he hk hname
      have hlt : k < d.cells.length := by
        rw [d.fitColumns.length_eq]
        exact (List.getElem?_eq_some_iff.1 hk).1
      intro i
      rw [hcells, hjk]
      split
      . next hik => simp [hik, hlt]
      . next hik => rw [List.getElem?_set_ne (Ne.symm hik)]
    . contradiction

theorem exists_toCell_of_put (h : d.put c v target = .ok d') :
    ∃ cell, v.toCell c target = .ok cell := by
  unfold put at h
  split at h
  . contradiction
  . next hcell => exact ⟨none, hcell⟩
  . next cell hcell => exact ⟨some cell, hcell⟩

theorem put_cellAfter {f : Field} (hc : d.schema.column? f.name = some c)
    (h : d.put c v target = .ok d') :
    d'.schema = d.schema
      ∧ ∀ (i : Nat) (e : Column), d.schema.columns[i]? = some e →
        d'.cells[i]?.join = cellAfter e d.cells[i]?.join (f, v) := by
  obtain ⟨hmem, hname⟩ := TableSchema.column?_eq_some_iff.1 hc
  obtain ⟨k, hk⟩ := List.mem_iff_getElem?.1 hmem
  obtain ⟨hschema, hcells⟩ := put_eq_ok hk h
  refine ⟨hschema, ?_⟩
  intro i e he
  rw [hcells i]
  unfold cellAfter
  -- the column of the field's name is the one that is written to
  by_cases hik : i = k
  . rw [hik, hk, Option.some.injEq] at he
    rw [if_pos hik, ← he, if_pos hname.symm]
  . have hne : f.name ≠ e.name := by
      intro heq
      exact hik (TableSchema.eq_of_name_eq he hk (heq.symm.trans hname.symm))
    rw [if_neg hik, if_neg hne]

theorem fill_eq_ok {dropUnknown : Bool} (h : fill dropUnknown target d entries = .ok d') :
    d'.schema = d.schema
      ∧ ∀ (i : Nat) (c : Column), d.schema.columns[i]? = some c →
        d'.cells[i]?.join = entries.foldl (cellAfter c) d.cells[i]?.join := by
  induction entries generalizing d with
  | nil =>
    have : d = d' := by simpa [fill] using h
    rw [this]
    exact ⟨rfl, fun _ _ _ => rfl⟩
  | cons e entries ih =>
    obtain ⟨f, v⟩ := e
    unfold fill at h
    split at h
    . next hnone =>
      have hcells : (if dropUnknown then d else d.markUnresolved f.name).cells = d.cells := by
        split <;> rfl
      have hschema : (if dropUnknown then d else d.markUnresolved f.name).schema = d.schema := by
        split <;> rfl
      obtain ⟨hschema', hall⟩ := ih h
      rw [hschema] at hschema' hall
      refine ⟨hschema', ?_⟩
      intro i c hc
      have hne : f.name ≠ c.name := by
        intro heq
        have hmem := List.mem_of_getElem? hc
        rw [TableSchema.column?_eq_some_iff.2 ⟨hmem, heq.symm⟩] at hnone
        contradiction
      rw [hall i c hc, hcells]
      simp [cellAfter, hne]
    . next c hc =>
      split at h
      . contradiction
      . next d₁ hput =>
        obtain ⟨hschema₁, hput⟩ := put_cellAfter hc hput
        obtain ⟨hschema', hall⟩ := ih h
        rw [hschema₁] at hschema' hall
        refine ⟨hschema', ?_⟩
        intro i e he
        rw [hall i e he, hput i e he]
        rfl

theorem fill_converts {dropUnknown : Bool} (h : fill dropUnknown target d entries = .ok d')
    {e : Field × Value} (he : e ∈ entries) (hc : d.schema.column? e.1.name = some c) :
    ∃ cell, e.2.toCell c target = .ok cell := by
  induction entries generalizing d with
  | nil => contradiction
  | cons e' entries ih =>
    obtain ⟨f, v⟩ := e'
    unfold fill at h
    split at h
    . next hnone =>
      have hschema : (if dropUnknown then d else d.markUnresolved f.name).schema = d.schema := by
        split <;> rfl
      cases he with
      | head =>
        rw [hc] at hnone
        contradiction
      | tail _ he => exact ih h he (by rwa [hschema])
    . next c' hc' =>
      split at h
      . contradiction
      . next d₁ hput =>
        cases he with
        | head =>
          have heq : c' = c := by simpa [hc'] using hc
          rw [heq] at hput
          exact exists_toCell_of_put hput
        | tail _ he => exact ih h he (by rwa [(put_cellAfter hc' hput).1])

theorem set_unresolved {name : String} {cell : Cell} (h : d.set name cell = .ok d') :
    d'.unresolved = d.unresolved := by
  unfold set at h
  split at h
  . contradiction
  . split at h
    . contradiction
    . split at h
      . cases h
        rfl
      . contradiction

theorem put_unresolved (h : d.put c v target = .ok d') : d'.unresolved = d.unresolved := by
  unfold put at h
  split at h
  . contradiction
  . cases h
    rfl
  . split at h
    . next hset =>
      cases h
      exact set_unresolved hset
    . contradiction

/--
The names of the fields that belong to no column, in the order of the fields.
-/
def unknownNames (s : TableSchema) (entries : List (Field × Value)) : List String :=
  (entries.filter fun e => (s.column? e.1.name).isNone).map (·.1.name)

theorem fill_unresolved {dropUnknown : Bool} (h : fill dropUnknown target d entries = .ok d') :
    d'.unresolved
      = d.unresolved ++ if dropUnknown then [] else unknownNames d.schema entries := by
  induction entries generalizing d with
  | nil =>
    cases h
    cases dropUnknown <;> simp [unknownNames]
  | cons e entries ih =>
    obtain ⟨f, v⟩ := e
    unfold fill at h
    unfold unknownNames
    rw [List.filter_cons]
    split at h
    . next hnone =>
      rw [hnone, ih h]
      cases dropUnknown <;> simp [unknownNames, markUnresolved]
    . next c hc =>
      split at h
      . contradiction
      . next d₁ hput =>
        rw [hc, ih h, put_unresolved hput, (put_cellAfter hc hput).1]
        rfl

/-!
# Fields in any order
-/

theorem foldl_cellAfter_eq {cell : Option Cell} (h : (entries.map (·.1.name)).Nodup) :
    entries.foldl (cellAfter c) cell
      =
    match entries.find? (·.1.name == c.name) with
    | some e => e.2.cellIn? c <|> cell
    | none => cell := by
  induction entries generalizing cell with
  | nil => rfl
  | cons e entries ih =>
    rw [List.map_cons, List.nodup_cons] at h
    rw [List.foldl_cons, ih h.2]
    by_cases hname : e.1.name = c.name
    . have hnone : entries.find? (·.1.name == c.name) = none := by
        rw [List.find?_eq_none]
        intro d hd hdname
        apply h.1
        rw [hname, ← eq_of_beq hdname]
        exact List.mem_map_of_mem hd
      simp [hnone, hname, cellAfter]
    . simp [hname, cellAfter]

theorem foldl_cellAfter_eraseIdx {cell : Option Cell}
    (h : ∀ e, entries[i]? = some e → e.1.name ≠ c.name) :
    (entries.eraseIdx i).foldl (cellAfter c) cell = entries.foldl (cellAfter c) cell := by
  induction entries generalizing i cell with
  | nil => rfl
  | cons e entries ih =>
    cases i with
    | zero => simp [cellAfter, h e rfl]
    | succ i =>
      rw [List.eraseIdx_cons_succ, List.foldl_cons, List.foldl_cons]
      exact ih fun d hd => h d (by simpa using hd)

end Draft

namespace Row

variable {r : Row} {schema : RowSchema} {c : Column}

/--
The cell that the row gives a column, if it has a field of that name whose value has one.
-/
def cellIn? (r : Row) (c : Column) : Option Cell :=
  match r.fieldValue c.name with
  | .ok v => v.cellIn? c
  | .error _ => none

theorem cellIn?_eq {v : Value} (h : r.fieldValue c.name = .ok v) : r.cellIn? c = v.cellIn? c := by
  unfold cellIn?
  rw [h]

theorem cellIn?_fits {cell : Cell} (h : r.cellIn? c = some cell) : cell.fits c.type = true := by
  unfold cellIn? at h
  split at h
  . exact Value.cellIn?_fits h
  . contradiction

theorem entries_withoutMarker (hschema : r.schema? = some schema) :
    r.withoutMarker.entries = r.entries
      ∨ ∃ i, r.withoutMarker.entries = r.entries.eraseIdx i
        ∧ ∀ e, r.entries[i]? = some e → e.1.name = markerField := by
  have herase : r.withoutMarker.entries = r.entries.eraseP (·.1.name == markerField) :=
    entries_withoutField hschema markerField
  rw [herase, List.eraseP_eq_eraseIdx]
  cases hindex : r.entries.findIdx? (·.1.name == markerField) with
  | none => exact .inl rfl
  | some i =>
    refine .inr ⟨i, rfl, ?_⟩
    intro e he
    obtain ⟨hlt, hname, -⟩ := List.findIdx?_eq_some_iff_getElem.1 hindex
    rw [List.getElem?_eq_getElem hlt, Option.some.injEq] at he
    rw [← he, eq_of_beq hname]

theorem mem_entries_withoutMarker {e : Field × Value} (hschema : r.schema? = some schema)
    (he : e ∈ r.entries) (hname : e.1.name ≠ markerField) : e ∈ r.withoutMarker.entries := by
  rcases entries_withoutMarker hschema with heq | ⟨i, heq, hi⟩
  . rwa [heq]
  . rw [heq, List.mem_eraseIdx_iff_getElem?]
    obtain ⟨j, hj⟩ := List.mem_iff_getElem?.1 he
    refine ⟨j, ?_, hj⟩
    intro hji
    rw [hji] at hj
    exact hname (hi e hj)

theorem foldl_entries_withoutMarker (hschema : r.schema? = some schema)
    (hc : c.name ≠ markerField) (cell : Option Cell) :
    r.withoutMarker.entries.foldl (Draft.cellAfter c) cell
      = r.entries.foldl (Draft.cellAfter c) cell := by
  rcases entries_withoutMarker hschema with heq | ⟨i, heq, hi⟩
  . rw [heq]
  . rw [heq]
    apply Draft.foldl_cellAfter_eraseIdx
    intro e he
    rw [hi e he]
    exact Ne.symm hc

theorem map_fst_zip_sublist (as : List α) (bs : List β) : ((as.zip bs).map (·.1)).Sublist as := by
  induction as generalizing bs with
  | nil => simp
  | cons a as ih =>
    cases bs with
    | nil => simp
    | cons b bs => simpa using ih bs

theorem foldl_entries_eq (hschema : r.schema? = some schema) (hnames : schema.names.Nodup) :
    r.entries.foldl (Draft.cellAfter c) none = r.cellIn? c := by
  have hnodup : (r.entries.map (·.1.name)).Nodup := by
    have hsub := (map_fst_zip_sublist schema.fields r.values).map (·.name)
    rw [List.map_map] at hsub
    unfold entries
    rw [hschema]
    exact hnames.sublist hsub
  rw [Draft.foldl_cellAfter_eq hnodup]
  unfold cellIn?
  rw [fieldValue_eq hschema]
  cases r.entries.find? (·.1.name == c.name) <;> simp

def cells (r : Row) (s : TableSchema) : Cells :=
  s.columns.map r.cellIn?

theorem getElem?_cells {s : TableSchema} {i : Nat} (hc : s.columns[i]? = some c) :
    (r.cells s)[i]?.join = r.cellIn? c := by
  unfold cells
  rw [List.getElem?_map, hc]
  rfl

/-!
# Planned rows
-/

variable {t : TableHandle} {dropUnknown : Bool} {w : Write}

theorem exists_fill_of_toWrite [Calendar] (hschema : r.schema? = some schema)
    (h : r.toWrite t dropUnknown = .ok w) :
    r.writeKind = .ok w.kind ∧ w.table = t.name
      ∧ Draft.fill dropUnknown ⟨t.name, r.withoutMarker⟩ (.empty t.schema) r.withoutMarker.entries
        = .ok w.draft := by
  unfold toWrite at h
  rw [hschema] at h
  dsimp only at h
  split at h
  . contradiction
  . next kind hkind =>
    split at h
    . contradiction
    . next draft hfill =>
      rw [Except.ok.injEq] at h
      rw [← h]
      exact ⟨hkind, rfl, hfill⟩

/--
The write of a planned row sets the columns to the cells that the row gives them.
-/
theorem cells_eq_of_toWrite [Calendar] (hschema : r.schema? = some schema) (hnames : schema.names.Nodup)
    (hmarker : ∀ c ∈ t.schema.columns, c.name ≠ markerField)
    (h : r.toWrite t dropUnknown = .ok w) :
    w.draft.schema = t.schema ∧ w.draft.cells = r.cells t.schema := by
  obtain ⟨-, -, hfill⟩ := exists_fill_of_toWrite hschema h
  obtain ⟨hdraft, hcells⟩ := Draft.fill_eq_ok hfill
  have hlength : w.draft.cells.length = (r.cells t.schema).length := by
    rw [w.draft.fitColumns.length_eq, hdraft, cells, List.length_map]
    rfl
  refine ⟨hdraft, List.ext_getElem hlength ?_⟩
  intro i hi hi'
  have hlt : i < t.schema.columns.length := by
    rwa [cells, List.length_map] at hi'
  have hc := List.getElem?_eq_getElem hlt
  have hcell := hcells i _ hc
  rw [Draft.join_getElem?_empty,
    foldl_entries_withoutMarker hschema (hmarker _ (List.getElem_mem hlt)),
    foldl_entries_eq hschema hnames, ← getElem?_cells hc] at hcell
  rwa [List.getElem?_eq_getElem hi, List.getElem?_eq_getElem hi'] at hcell

/--
A value that a planned row has for a column was converted, so there is a cell if it is not missing.
-/
theorem cellIn?_of_toWrite [Calendar] {v : Value} (hschema : r.schema? = some schema)
    (h : r.toWrite t dropUnknown = .ok w) (hc : c ∈ t.schema.columns) (hname : c.name ≠ markerField)
    (hv : r.fieldValue c.name = .ok v) (hnull : v ≠ .null) :
    ∃ cell, v.cellIn? c = some cell := by
  obtain ⟨-, -, hfill⟩ := exists_fill_of_toWrite hschema h
  rw [fieldValue_eq hschema] at hv
  split at hv
  . next e he =>
    have hename : e.1.name = c.name := by simpa using List.find?_some he
    have hmem := mem_entries_withoutMarker hschema (List.mem_of_find?_eq_some he)
      (by rwa [hename])
    have hcolumn : (Draft.empty t.schema).schema.column? e.1.name = some c :=
      TableSchema.column?_eq_some_iff.2 ⟨hc, hename.symm⟩
    obtain ⟨cell, hcell⟩ := Draft.fill_converts hfill hmem hcolumn
    have hev : e.2 = v := by simpa using hv
    rw [hev] at hcell
    rw [Value.cellIn?_eq hcell]
    cases cell with
    | none => exact absurd (Value.eq_null_of_toCell hcell) hnull
    | some cell => exact ⟨cell, rfl⟩
  . contradiction

theorem forall₂_of_toWrites [Calendar] {planned : List Row} {ws : List Write}
    (h : toWrites t dropUnknown planned = .ok ws) :
    List.Forall₂ (fun r w => toWrite r t dropUnknown = .ok w) planned ws := by
  induction planned generalizing ws with
  | nil =>
    have : ws = [] := by simpa [toWrites] using h
    rw [this]
    exact .nil
  | cons r planned ih =>
    unfold toWrites at h
    split at h
    . contradiction
    . next w hw =>
      split at h
      . contradiction
      . next ws' hws =>
        rw [Except.ok.injEq] at h
        rw [← h]
        exact .cons hw (ih hws)

end Row

end KeyedTables
