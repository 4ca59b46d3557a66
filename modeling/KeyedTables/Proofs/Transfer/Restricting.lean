import KeyedTables.Proofs.Transfer.TwoPaths

/-!
This module contains what is left of a dataset when it is restricted to fields of some names. Its
rows are read by position, so a row may be too short for the fields or longer than they are, and
names may repeat. Restricting is then the same as dropping fields from what is read, however the
rows are kept, and to restrict twice is to restrict once to the names that both have in common.
-/

namespace KeyedTables

namespace Dataset

variable {d : Dataset} {keep A B : List String} {fields : List Field} {r : Row} {first i : Nat}
variable {f : Field}

/--
Fields with the values that a row has at their positions. The first field has position `first`. A
row that is too short lacks the values of the last ones, and what is left over of a longer one is
not read.
-/
def readFrom (first : Nat) (r : Row) : List Field → List (Field × Value)
  | [] => []
  | f :: fs => (f, valueAt r first) :: readFrom (first + 1) r fs

theorem map_fst_readFrom (first : Nat) (r : Row) (fields : List Field) :
    (readFrom first r fields).map (·.1) = fields := by
  induction fields generalizing first with
  | nil => rfl
  | cons f fields ih => rw [readFrom, List.map_cons, ih]

theorem getElem?_readFrom (hf : fields[i]? = some f) :
    (readFrom first r fields)[i]? = some (f, valueAt r (first + i)) := by
  induction fields generalizing first i with
  | nil => contradiction
  | cons g fields ih =>
    cases i with
    | zero =>
      cases hf
      rfl
    | succ i =>
      rw [readFrom, List.getElem?_cons_succ, ih hf, Nat.add_right_comm, Nat.add_assoc]

theorem field_mem_of_mem_readFrom {e : Field × Value} (he : e ∈ readFrom first r fields) :
    e.1 ∈ fields := by
  rw [← map_fst_readFrom first r fields]
  exact List.mem_map_of_mem he

theorem map_fst_filter_readFrom (keep : List String) (first : Nat) (r : Row)
    (fields : List Field) :
    ((readFrom first r fields).filter (keep.contains ·.1.name)).map (·.1)
      = fields.filter (keep.contains ·.name) := by
  conv => rhs; rw [← map_fst_readFrom first r fields, List.filter_map]
  rfl

/--
What is read of a row that has just the values of these fields are the fields with their values.
-/
theorem readFrom_named (schema : RowSchema) (before : List Value)
    (entries : List (Field × Value)) :
    readFrom before.length (.named schema (before ++ entries.map (·.2))) (entries.map (·.1))
      = entries := by
  induction entries generalizing before with
  | nil => rfl
  | cons e entries ih =>
    have hrest := ih (before ++ [e.2])
    rw [List.length_append, List.append_assoc] at hrest
    rw [List.map_cons, List.map_cons, readFrom]
    simp only [List.length_cons, List.length_nil, List.singleton_append] at hrest
    rw [hrest]
    simp [valueAt, Row.named]

/-!
# Restricted rows
-/

theorem map_valueAt_keptPositions (keep : List String) (first : Nat) (r : Row)
    (fields : List Field) :
    (keptPositions keep first fields).map (valueAt r)
      = ((readFrom first r fields).filter (keep.contains ·.1.name)).map (·.2) := by
  induction fields generalizing first with
  | nil => rfl
  | cons f fields ih =>
    unfold keptPositions readFrom
    rw [List.filter_cons]
    split
    . rw [List.map_cons, List.map_cons, ih]
    . exact ih (first + 1)

/--
The values of the kept fields, as a row of its own.
-/
def projectedRow (d : Dataset) (keep : List String) (r : Row) : Row :=
  .named ⟨d.schema.fields.filter (keep.contains ·.name)⟩
    ((keptPositions keep 0 d.schema.fields).map (valueAt r))

theorem projectedRow_eq (d : Dataset) (keep : List String) (r : Row) :
    d.projectedRow keep r
      = .named ⟨d.schema.fields.filter (keep.contains ·.name)⟩
        (((readFrom 0 r d.schema.fields).filter (keep.contains ·.1.name)).map (·.2)) := by
  unfold projectedRow
  rw [map_valueAt_keptPositions]

theorem readFrom_projectedRow (d : Dataset) (keep : List String) (r : Row) :
    readFrom 0 (d.projectedRow keep r) (d.schema.fields.filter (keep.contains ·.name))
      = (readFrom 0 r d.schema.fields).filter (keep.contains ·.1.name) := by
  rw [projectedRow_eq, ← map_fst_filter_readFrom keep 0 r d.schema.fields]
  exact readFrom_named _ [] _

theorem projectedRow_congr
    (h : ∀ f ∈ d.schema.fields, A.contains f.name = B.contains f.name) (r : Row) :
    d.projectedRow A r = d.projectedRow B r := by
  have hentries : (readFrom 0 r d.schema.fields).filter (A.contains ·.1.name)
      = (readFrom 0 r d.schema.fields).filter (B.contains ·.1.name) := by
    apply List.filter_congr
    intro e he
    exact h e.1 (field_mem_of_mem_readFrom he)
  rw [projectedRow_eq, projectedRow_eq, List.filter_congr h, hentries]

theorem keptRow_of_all (h : ∀ f ∈ d.schema.fields, keep.contains f.name = true) (r : Row) :
    d.keptRow keep r = r := by
  unfold keptRow
  rw [length_keptPositions, if_pos (List.length_filter_eq_length_iff.2 h)]

theorem keptRow_of_not_all (h : ¬ ∀ f ∈ d.schema.fields, keep.contains f.name = true) (r : Row) :
    d.keptRow keep r = d.projectedRow keep r := by
  unfold keptRow
  rw [length_keptPositions, if_neg fun hlength => h (List.length_filter_eq_length_iff.1 hlength)]
  rfl

theorem filter_readFrom_of_all (h : ∀ f ∈ fields, keep.contains f.name = true) :
    (readFrom first r fields).filter (keep.contains ·.1.name) = readFrom first r fields := by
  rw [List.filter_eq_self]
  intro e he
  exact h e.1 (field_mem_of_mem_readFrom he)

/--
What is read of a restricted row is what was read of the row, but for the fields that are not kept.
-/
theorem readFrom_keptRow (d : Dataset) (keep : List String) (r : Row) :
    readFrom 0 (d.keptRow keep r) (d.schema.fields.filter (keep.contains ·.name))
      = (readFrom 0 r d.schema.fields).filter (keep.contains ·.1.name) := by
  by_cases hall : ∀ f ∈ d.schema.fields, keep.contains f.name = true
  . rw [keptRow_of_all hall, filter_readFrom_of_all hall, List.filter_eq_self.2 hall]
  . rw [keptRow_of_not_all hall, readFrom_projectedRow]

/-!
# Restricting twice
-/

theorem contains_inter (A B : List String) (name : String) :
    (A ∩ B).contains name = (A.contains name && B.contains name) := by
  rw [Bool.eq_iff_iff, Bool.and_eq_true]
  simp only [List.contains_iff_mem, List.mem_inter_iff]

theorem filter_filter_inter (A B : List String) (name : α → String) (as : List α) :
    (as.filter fun a => A.contains (name a)).filter (fun a => B.contains (name a))
      = as.filter fun a => (A ∩ B).contains (name a) := by
  rw [List.filter_filter]
  apply List.filter_congr
  intro a _
  rw [contains_inter, Bool.and_comm]

theorem schema_retainFields (d : Dataset) (keep : List String) :
    (d.retainFields keep).schema = ⟨d.schema.fields.filter (keep.contains ·.name)⟩ := by
  rw [retainFields_eq]

theorem projectedRow_keptRow (d : Dataset) (A B : List String) (r : Row) :
    (d.retainFields A).projectedRow B (d.keptRow A r) = d.projectedRow (A ∩ B) r := by
  rw [projectedRow_eq, schema_retainFields, readFrom_keptRow, filter_filter_inter A B Field.name,
    filter_filter_inter A B fun e : Field × Value => e.1.name, projectedRow_eq]

theorem keptRow_keptRow (d : Dataset) (A B : List String) (r : Row) :
    (d.retainFields A).keptRow B (d.keptRow A r) = d.keptRow (A ∩ B) r := by
  have hmem : ∀ f : Field, (A ∩ B).contains f.name = true
      ↔ A.contains f.name = true ∧ B.contains f.name = true := by
    simp
  by_cases hB : ∀ f ∈ (d.retainFields A).schema.fields, B.contains f.name = true
  . rw [keptRow_of_all hB]
    simp only [schema_retainFields, List.mem_filter] at hB
    by_cases hA : ∀ f ∈ d.schema.fields, A.contains f.name = true
    . have hAB : ∀ f ∈ d.schema.fields, (A ∩ B).contains f.name = true := by
        intro f hf
        exact (hmem f).2 ⟨hA f hf, hB f ⟨hf, hA f hf⟩⟩
      rw [keptRow_of_all hA, keptRow_of_all hAB]
    . -- the first restriction has dropped a field, and the second one drops no more
      have hAB : ¬ ∀ f ∈ d.schema.fields, (A ∩ B).contains f.name = true := by
        intro hall
        exact hA fun f hf => ((hmem f).1 (hall f hf)).1
      rw [keptRow_of_not_all hA, keptRow_of_not_all hAB]
      apply projectedRow_congr
      intro f hf
      rw [contains_inter]
      cases hfA : A.contains f.name with
      | false => rfl
      | true => rw [hB f ⟨hf, hfA⟩, Bool.and_true]
  . have hAB : ¬ ∀ f ∈ d.schema.fields, (A ∩ B).contains f.name = true := by
      intro hall
      apply hB
      rw [schema_retainFields]
      intro f hf
      exact ((hmem f).1 (hall f (List.mem_of_mem_filter hf))).2
    rw [keptRow_of_not_all hB, keptRow_of_not_all hAB, projectedRow_keptRow]

theorem retainFields_retainFields (d : Dataset) (A B : List String) :
    (d.retainFields A).retainFields B = d.retainFields (A ∩ B) := by
  rw [retainFields_eq (d.retainFields A), retainFields_eq d (A ∩ B), schema_retainFields,
    filter_filter_inter A B Field.name]
  congr 1
  rw [retainFields_eq d A, List.map_map]
  apply List.map_congr_left
  intro r _
  rw [← keptRow_keptRow, retainFields_eq d A]
  rfl

/-!
# Positions of kept fields
-/

/--
An element that is kept comes after as many as were kept before it.
-/
theorem getElem?_filter_of_kept {p : α → Bool} {as : List α} {a : α} (ha : as[i]? = some a)
    (hp : p a = true) : (as.filter p)[(as.take i).countP p]? = some a := by
  induction as generalizing i with
  | nil => contradiction
  | cons b as ih =>
    cases i with
    | zero =>
      cases ha
      rw [List.filter_cons_of_pos hp]
      rfl
    | succ i =>
      rw [List.take_succ_cons, List.countP_cons]
      cases hb : p b with
      | true =>
        rw [List.filter_cons_of_pos hb]
        exact ih ha
      | false =>
        rw [List.filter_cons_of_neg (by simp [hb])]
        exact ih ha

/--
The position that a kept field has once the others are dropped, which is the number of kept fields
before it.
-/
def keptBefore (keep : List String) (fields : List Field) (i : Nat) : Nat :=
  (fields.take i).countP (keep.contains ·.name)

theorem countP_take_readFrom (keep : List String) (r : Row) (fields : List Field) (i : Nat) :
    ((readFrom first r fields).take i).countP (keep.contains ·.1.name)
      = keptBefore keep fields i := by
  unfold keptBefore
  conv => rhs; rw [← map_fst_readFrom first r fields, ← List.map_take, List.countP_map]
  rfl

theorem getElem?_fields_retainFields (hf : d.schema.fields[i]? = some f)
    (hkept : keep.contains f.name = true) :
    (d.retainFields keep).schema.fields[keptBefore keep d.schema.fields i]? = some f := by
  rw [schema_retainFields]
  exact getElem?_filter_of_kept (p := fun f : Field => keep.contains f.name) hf hkept

/--
A restricted row has the value of a kept field at the position that the field has then.
-/
theorem valueAt_keptRow (hf : d.schema.fields[i]? = some f) (hkept : keep.contains f.name = true)
    (r : Row) :
    valueAt (d.keptRow keep r) (keptBefore keep d.schema.fields i) = valueAt r i := by
  have hfield := getElem?_fields_retainFields hf hkept
  rw [schema_retainFields] at hfield
  have hread : (readFrom 0 r d.schema.fields)[i]? = some (f, valueAt r (0 + i)) :=
    getElem?_readFrom hf
  have hentry := getElem?_filter_of_kept (p := fun e => keep.contains e.1.name) hread hkept
  rw [← readFrom_keptRow, countP_take_readFrom, getElem?_readFrom hfield] at hentry
  simpa using hentry

/-!
# Writes of restricted datasets
-/

/--
The dataset whose rows have exactly the values of the kept fields, even if these are all.
-/
def project (d : Dataset) (keep : List String) : Dataset :=
  ⟨⟨d.schema.fields.filter (keep.contains ·.name)⟩, d.rows.map (d.projectedRow keep)⟩

/--
It makes no difference for writing that a row lacks values, or that some are left over.
-/
theorem fill_readFrom {target : Target} {draft : Draft} (first : Nat) (r : Row)
    (fields : List Field) :
    Draft.fill true target draft (readFrom first r fields)
      = Draft.fill true target draft (fields.zip (r.values.drop first)) := by
  induction fields generalizing first draft with
  | nil => rfl
  | cons f fields ih =>
    by_cases hlt : first < r.values.length
    . have hvalue : valueAt r first = r.values[first] := by simp [valueAt, hlt]
      rw [List.drop_eq_getElem_cons hlt, List.zip_cons_cons, readFrom, hvalue, Draft.fill.eq_2,
        Draft.fill.eq_2]
      simp only [ih]
    . -- the values are all read, and those that are missing leave their columns unset
      have hvalue : valueAt r first = .null := by simp [valueAt, hlt]
      have hrest : ∀ n, first ≤ n → r.values.drop n = [] := by
        intro n hn
        rw [List.drop_eq_nil_iff]
        omega
      rw [hrest first (Nat.le_refl _), List.zip_nil_right, readFrom, hvalue, Draft.fill.eq_2]
      have hnull : Draft.fill true target draft (readFrom (first + 1) r fields)
          = Draft.fill true target draft [] := by
        rw [ih (first + 1), hrest (first + 1) (Nat.le_succ _), List.zip_nil_right]
      split
      . exact hnull
      . next c _ =>
        have hput : draft.put c .null target = .ok draft := by simp [Draft.put, Value.toCell]
        rw [hput]
        exact hnull

theorem known_of_columnsOf {t : TableHandle} {columns : List Column}
    (h : columnsOf t fields = .ok columns) : ∀ f ∈ fields, t.schema.column? f.name ≠ none := by
  induction fields generalizing columns with
  | nil => simp
  | cons f fields ih =>
    unfold columnsOf at h
    split at h
    . contradiction
    . next c hc =>
      split at h
      . contradiction
      . next rest hrest =>
        rw [List.forall_mem_cons]
        exact ⟨by simp [hc], ih hrest⟩

theorem zip_values_projectedRow (h : ∀ f ∈ d.schema.fields, keep.contains f.name = true) (r : Row) :
    d.schema.fields.zip (d.projectedRow keep r).values = readFrom 0 r d.schema.fields := by
  rw [projectedRow_eq, filter_readFrom_of_all h]
  exact (List.zip_of_prod (map_fst_readFrom 0 r d.schema.fields) rfl).symm

theorem writes_project (h : ∀ f ∈ d.schema.fields, keep.contains f.name = true) (kind : WriteKind)
    (t : TableHandle) :
    ((d.project keep).writes kind t).mapError TransferError.withoutRow
      = (d.writes kind t).mapError TransferError.withoutRow := by
  have hschema : (d.project keep).schema.fields = d.schema.fields := List.filter_eq_self.2 h
  cases hcolumns : columnsOf t d.schema.fields with
  | error e => simp [writes, hschema, hcolumns]
  | ok columns =>
    have hknown := known_of_columnsOf hcolumns
    obtain ⟨columns', hcolumns', hput⟩ := exists_columnsOf hknown
    have hmade : (d.project keep).writes kind t
        = fieldWrites d.schema.fields kind t (d.projectedRow keep) d.rows := by
      rw [writes, hschema, hcolumns']
      apply rowWrites_map
      intro r _
      rw [hput _ _ _ rfl, zip_values_projectedRow h, fill_readFrom, List.drop_zero]
    rw [hmade, writes_of_known d hknown]
    apply fieldWrites_withoutRow

theorem retainFields_of_all (h : ∀ f ∈ d.schema.fields, keep.contains f.name = true) :
    d.retainFields keep = d := by
  have hlength := length_keptPositions keep 0 d.schema.fields
  rw [List.length_filter_eq_length_iff.2 h] at hlength
  exact if_pos hlength

theorem retainFields_of_not_all (h : ¬ ∀ f ∈ d.schema.fields, keep.contains f.name = true) :
    d.retainFields keep = d.project keep := by
  rw [retainFields_eq]
  unfold project
  congr 1
  apply List.map_congr_left
  intro r _
  exact keptRow_of_not_all h r

/--
A dataset writes the same once it is restricted, whether its rows are left as they are when all
fields are kept or are made anew of the values of these fields.
-/
theorem writes_retainFields_eq_project (d : Dataset) (keep : List String) (kind : WriteKind)
    (t : TableHandle) :
    ((d.retainFields keep).writes kind t).mapError TransferError.withoutRow
      = ((d.project keep).writes kind t).mapError TransferError.withoutRow := by
  by_cases hall : ∀ f ∈ d.schema.fields, keep.contains f.name = true
  . rw [retainFields_of_all hall, writes_project hall]
  . rw [retainFields_of_not_all hall]

/--
To restrict a dataset to some fields and then to others is to restrict it to those that are among
both. The fields that are left are in their order, every row has the values that it had for them,
with null for those that it lacks, and it makes no difference for writing if the rows are left as
they are when no field is dropped.
-/
theorem restricting_composes (d : Dataset) (A B : List String) :
    (d.retainFields A).retainFields B = d.retainFields (A ∩ B)
    ∧ (d.retainFields A).schema.fields = d.schema.fields.filter (A.contains ·.name)
    ∧ List.Forall₂
        (fun r q => ∀ i f, d.schema.fields[i]? = some f → A.contains f.name = true →
          (d.retainFields A).schema.fields[keptBefore A d.schema.fields i]? = some f
          ∧ valueAt q (keptBefore A d.schema.fields i) = valueAt r i)
        d.rows (d.retainFields A).rows
    ∧ ∀ kind t,
        ((d.retainFields A).writes kind t).mapError TransferError.withoutRow
          = ((d.project A).writes kind t).mapError TransferError.withoutRow := by
  refine ⟨retainFields_retainFields d A B, congrArg RowSchema.fields (schema_retainFields d A), ?_,
    writes_retainFields_eq_project d A⟩
  have hrows : (d.retainFields A).rows = d.rows.map (d.keptRow A) := by rw [retainFields_eq]
  rw [hrows, List.forall₂_map_right_iff, List.forall₂_same]
  intro r _ i f hf hkept
  exact ⟨getElem?_fields_retainFields hf hkept, valueAt_keptRow hf hkept r⟩

/--
Two fields share a name, the first row lacks values, and the second one has more values than there
are fields.
-/
def ragged : Dataset where
  schema := ⟨[.optional "a" .int32, .optional "b" .int32, .optional "a" .int32]⟩
  rows := [.bare [.int32 1], .named ⟨[]⟩ [.int32 1, .int32 2, .int32 3, .int32 4]]

example :
    (ragged.retainFields ["b", "a"]).rows = ragged.rows
    ∧ ((ragged.retainFields ["b", "a"]).retainFields ["a", "c"]).rows.map (·.values)
      = [[.int32 1, .null], [.int32 1, .int32 3]] := by
  decide

end Dataset

end KeyedTables
