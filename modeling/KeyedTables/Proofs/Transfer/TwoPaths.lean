import Mathlib.Data.List.Forall2
import KeyedTables.Proofs.Store.Calls
import KeyedTables.Proofs.Transfer.Filling
import KeyedTables.Transfer.Dataset

/-!
This module contains that there are two ways to the same writes. Planned rows carry a marker, and
each of their fields is written to the column of its name. A dataset is first restricted to the
fields that belong to columns, and its values are then written by position. Either way the same
values are written to the same columns in the same order, and if one of them cannot be written, both
fail there, with errors that differ at most in the row that they show.
-/

namespace KeyedTables

/--
The error but for the row that it shows.
-/
def TransferError.withoutRow : TransferError → TransferError
  | .typeMismatch table field expected actual _ =>
    .typeMismatch table field expected actual (.bare [])
  | e => e

/--
Two results are the same up to what is left out of their errors only if both are the same value or
both are errors.
-/
theorem mapError_cases {f : ε → ε'} {x y : Except ε α} (h : x.mapError f = y.mapError f) :
    (∃ a, x = .ok a ∧ y = .ok a) ∨ ∃ e e', x = .error e ∧ y = .error e' ∧ f e = f e' := by
  cases x <;> cases y
  case error.error e e' => exact .inr ⟨e, e', rfl, rfl, Except.error.inj h⟩
  case error.ok e a => cases h
  case ok.error a e => cases h
  case ok.ok a b =>
    cases Except.ok.inj h
    exact .inl ⟨a, rfl, rfl⟩

theorem TableSchema.contains_names (s : TableSchema) (name : String) :
    s.names.contains name = (s.column? name).isSome := by
  unfold column? names
  rw [List.isSome_find?, Bool.eq_iff_iff, List.contains_iff_mem, List.mem_map, List.any_eq_true]
  simp only [beq_iff_eq]

/-!
# Values
-/

theorem Value.toCell_withoutRow (v : Value) (c : Column) (table : String) (r r' : Row) :
    (v.toCell c ⟨table, r⟩).mapError TransferError.withoutRow
      = (v.toCell c ⟨table, r'⟩).mapError TransferError.withoutRow := by
  unfold toCell
  split
  case h_12 precision scale d _ => split <;> rfl
  all_goals rfl

namespace Draft

variable {d d' : Draft} {c : Column} {v : Value} {target : Target} {entries : List (Field × Value)}

theorem put_withoutRow (d : Draft) (c : Column) (v : Value) (table : String) (r r' : Row) :
    (d.put c v ⟨table, r⟩).mapError TransferError.withoutRow
      = (d.put c v ⟨table, r'⟩).mapError TransferError.withoutRow := by
  unfold put
  rcases mapError_cases (v.toCell_withoutRow c table r r') with ⟨cell, h, h'⟩ | ⟨e, e', h, h', he⟩
  . rw [h, h']
  . rw [h, h']
    exact congrArg Except.error he

theorem fill_withoutRow (dropUnknown : Bool) (table : String) (r r' : Row) (d : Draft)
    (entries : List (Field × Value)) :
    (fill dropUnknown ⟨table, r⟩ d entries).mapError TransferError.withoutRow
      = (fill dropUnknown ⟨table, r'⟩ d entries).mapError TransferError.withoutRow := by
  induction entries generalizing d with
  | nil => rfl
  | cons e entries ih =>
    obtain ⟨f, v⟩ := e
    unfold fill
    split
    . exact ih _
    . next c hc =>
      rcases mapError_cases (d.put_withoutRow c v table r r') with
        ⟨d₁, h, h'⟩ | ⟨e, e', h, h', he⟩
      . rw [h, h']
        exact ih d₁
      . rw [h, h']
        exact congrArg Except.error he

/--
If every field belongs to a column, there is nothing to drop.
-/
theorem fill_eq_fill_true (hknown : ∀ e ∈ entries, d.schema.column? e.1.name ≠ none)
    (dropUnknown : Bool) : fill dropUnknown target d entries = fill true target d entries := by
  induction entries generalizing d with
  | nil => rfl
  | cons e entries ih =>
    obtain ⟨f, v⟩ := e
    unfold fill
    split
    . next hnone => exact absurd hnone (hknown (f, v) List.mem_cons_self)
    . next c hc =>
      split
      . rfl
      . next d₁ hput =>
        apply ih
        rw [(put_cellAfter hc hput).1]
        intro e he
        exact hknown e (List.mem_cons_of_mem _ he)

theorem fill_filter (keep : Field → Bool)
    (hkeep : ∀ e ∈ entries, keep e.1 = false → d.schema.column? e.1.name = none) :
    fill true target d (entries.filter fun e => keep e.1) = fill true target d entries := by
  induction entries generalizing d with
  | nil => rfl
  | cons e entries ih =>
    obtain ⟨f, v⟩ := e
    have hrest : ∀ d' : Draft, d'.schema = d.schema →
        fill true target d' (entries.filter fun e => keep e.1) = fill true target d' entries := by
      intro d' hschema
      apply ih
      rw [hschema]
      intro e he
      exact hkeep e (List.mem_cons_of_mem _ he)
    cases hf : keep f with
    | false =>
      rw [List.filter_cons_of_neg (by simp [hf]), hrest d rfl, fill.eq_2,
        hkeep (f, v) List.mem_cons_self hf]
      rfl
    | true =>
      rw [List.filter_cons_of_pos (by exact hf), fill.eq_2, fill.eq_2]
      split
      . exact hrest d rfl
      . next c hc =>
        split
        . rfl
        . next d₁ hput => exact hrest d₁ (put_cellAfter hc hput).1

/--
Writing fields fails at a position: those before it can be written, and the value there cannot.
-/
def FailsAt (d : Draft) (target : Target) (entries : List (Field × Value)) (i : Nat)
    (e : TransferError) : Prop :=
  ∃ f v c draft, entries[i]? = some (f, v) ∧ d.schema.column? f.name = some c
    ∧ fill true target d (entries.take i) = .ok draft ∧ draft.put c v target = .error e

theorem failsAt_cons_of_none {f : Field} {i : Nat} {e : TransferError}
    (hnone : d.schema.column? f.name = none) (h : d.FailsAt target entries i e) :
    d.FailsAt target ((f, v) :: entries) (i + 1) e := by
  obtain ⟨g, u, c, draft, hentry, hcolumn, hfill, hput⟩ := h
  refine ⟨g, u, c, draft, hentry, hcolumn, ?_, hput⟩
  rw [List.take_succ_cons, fill.eq_2, hnone]
  exact hfill

theorem failsAt_cons_of_put {f : Field} {i : Nat} {e : TransferError}
    (hc : d.schema.column? f.name = some c) (hput : d.put c v target = .ok d')
    (h : d'.FailsAt target entries i e) : d.FailsAt target ((f, v) :: entries) (i + 1) e := by
  obtain ⟨g, u, c', draft, hentry, hcolumn, hfill, hput'⟩ := h
  rw [(put_cellAfter hc hput).1] at hcolumn
  refine ⟨g, u, c', draft, hentry, hcolumn, ?_, hput'⟩
  rw [List.take_succ_cons, fill.eq_2, hc]
  dsimp only
  rw [hput]
  exact hfill

theorem exists_failsAt_of_fill {table : String} {r r' : Row} {e e' : TransferError}
    (h : fill true ⟨table, r⟩ d entries = .error e)
    (h' : fill true ⟨table, r'⟩ d entries = .error e') :
    ∃ i, d.FailsAt ⟨table, r⟩ entries i e ∧ d.FailsAt ⟨table, r'⟩ entries i e' := by
  induction entries generalizing d with
  | nil => contradiction
  | cons entry entries ih =>
    obtain ⟨f, v⟩ := entry
    rw [fill.eq_2] at h h'
    cases hc : d.schema.column? f.name with
    | none =>
      rw [hc] at h h'
      obtain ⟨i, hfirst, hsecond⟩ := ih h h'
      exact ⟨i + 1, failsAt_cons_of_none hc hfirst, failsAt_cons_of_none hc hsecond⟩
    | some c =>
      rw [hc] at h h'
      dsimp only at h h'
      rcases mapError_cases (d.put_withoutRow c v table r r') with
        ⟨d₁, hput, hput'⟩ | ⟨e₁, e₁', hput, hput', -⟩
      . rw [hput] at h
        rw [hput'] at h'
        obtain ⟨i, hfirst, hsecond⟩ := ih h h'
        exact ⟨i + 1, failsAt_cons_of_put hc hput hfirst, failsAt_cons_of_put hc hput' hsecond⟩
      . rw [hput] at h
        rw [hput'] at h'
        cases h
        cases h'
        exact ⟨0, ⟨f, v, c, d, rfl, hc, rfl, hput⟩, ⟨f, v, c, d, rfl, hc, rfl, hput'⟩⟩

end Draft

/-!
# Rows
-/

namespace Dataset

/--
The writes of rows whose values are for the given fields. A field that belongs to no column is
dropped. An error shows a row as `shown` gives it.
-/
def fieldWrites (fields : List Field) (kind : WriteKind) (t : TableHandle) (shown : Row → Row) :
    List Row → Except TransferError (List Write)
  | [] => .ok []
  | r :: rs =>
    match Draft.fill true ⟨t.name, shown r⟩ (.empty t.schema) (fields.zip r.values) with
    | .error e => .error e
    | .ok draft =>
      match fieldWrites fields kind t shown rs with
      | .error e => .error e
      | .ok ws => .ok (⟨kind, t.name, draft⟩ :: ws)

/--
Writing rows fails at a position, at a field of the row there: the rows before it can be written, and
so can the fields before that one.
-/
def FailsAt (fields : List Field) (t : TableHandle) (shown : Row → Row) (rows : List Row) (k i : Nat)
    (e : TransferError) : Prop :=
  ∃ r, rows[k]? = some r
    ∧ (∀ q ∈ rows.take k, ∃ draft,
      Draft.fill true ⟨t.name, shown q⟩ (.empty t.schema) (fields.zip q.values) = .ok draft)
    ∧ (Draft.empty t.schema).FailsAt ⟨t.name, shown r⟩ (fields.zip r.values) i e

/--
Two ways to write the rows of a dataset come to the same: to the same writes, which leave no field
over, or to errors at the same field of the same row, which differ at most in the row that they show.
-/
structure SameWrites (d : Dataset) (kind : WriteKind) (t : TableHandle) (shown shown' : Row → Row)
    (x y : Except TransferError (List Write)) : Prop where
  withoutRow_eq : x.mapError TransferError.withoutRow = y.mapError TransferError.withoutRow
  complete : ∀ ws, x = .ok ws →
    ∀ w ∈ ws, w.kind = kind ∧ w.table = t.name ∧ w.draft.unresolved = []
  failsAt : ∀ e e', x = .error e → y = .error e' → ∃ k i,
    FailsAt d.schema.fields t shown d.rows k i e ∧ FailsAt d.schema.fields t shown' d.rows k i e'

theorem SameWrites.eq_ok {d : Dataset} {kind : WriteKind} {t : TableHandle} {shown shown' : Row → Row}
    {x y : Except TransferError (List Write)} {ws : List Write}
    (h : d.SameWrites kind t shown shown' x y) (hy : y = .ok ws) : x = .ok ws := by
  obtain ⟨vs, hx, hvs⟩ | ⟨e, e', -, he', -⟩ := mapError_cases h.withoutRow_eq
  . rw [hx, ← hvs, hy]
  . cases hy.symm.trans he'

variable {fields : List Field} {kind : WriteKind} {t : TableHandle} {shown shown' : Row → Row}
variable {rows : List Row} {r : Row} {e e' : TransferError}

theorem fieldWrites_withoutRow (fields : List Field) (kind : WriteKind) (t : TableHandle)
    (shown shown' : Row → Row) (rows : List Row) :
    (fieldWrites fields kind t shown rows).mapError TransferError.withoutRow
      = (fieldWrites fields kind t shown' rows).mapError TransferError.withoutRow := by
  induction rows with
  | nil => rfl
  | cons r rows ih =>
    unfold fieldWrites
    rcases mapError_cases (Draft.fill_withoutRow true t.name (shown r) (shown' r) (.empty t.schema)
      (fields.zip r.values)) with ⟨draft, h, h'⟩ | ⟨e, e', h, h', he⟩
    . rw [h, h']
      rcases mapError_cases ih with ⟨ws, hrest, hrest'⟩ | ⟨e, e', hrest, hrest', he⟩
      . rw [hrest, hrest']
      . rw [hrest, hrest']
        exact congrArg Except.error he
    . rw [h, h']
      exact congrArg Except.error he

theorem fieldWrites_complete {ws : List Write} (h : fieldWrites fields kind t shown rows = .ok ws) :
    ∀ w ∈ ws, w.kind = kind ∧ w.table = t.name ∧ w.draft.unresolved = [] := by
  induction rows generalizing ws with
  | nil =>
    cases h
    simp
  | cons r rows ih =>
    unfold fieldWrites at h
    split at h
    . contradiction
    . next draft hfill =>
      split at h
      . contradiction
      . next ws' hrest =>
        cases h
        intro w hw
        cases hw with
        | head => exact ⟨rfl, rfl, Draft.fill_unresolved hfill⟩
        | tail _ hw => exact ih hrest w hw

theorem failsAt_cons {k i : Nat} {draft : Draft}
    (hfill : Draft.fill true ⟨t.name, shown r⟩ (.empty t.schema) (fields.zip r.values) = .ok draft)
    (h : FailsAt fields t shown rows k i e) : FailsAt fields t shown (r :: rows) (k + 1) i e := by
  obtain ⟨q, hq, hbefore, hfails⟩ := h
  refine ⟨q, hq, ?_, hfails⟩
  intro p hp
  cases hp with
  | head => exact ⟨draft, hfill⟩
  | tail _ hp => exact hbefore p hp

theorem exists_failsAt_of_fieldWrites (h : fieldWrites fields kind t shown rows = .error e)
    (h' : fieldWrites fields kind t shown' rows = .error e') :
    ∃ k i, FailsAt fields t shown rows k i e ∧ FailsAt fields t shown' rows k i e' := by
  induction rows with
  | nil => contradiction
  | cons r rows ih =>
    unfold fieldWrites at h h'
    rcases mapError_cases (Draft.fill_withoutRow true t.name (shown r) (shown' r) (.empty t.schema)
      (fields.zip r.values)) with ⟨draft, hfill, hfill'⟩ | ⟨e₁, e₁', hfill, hfill', -⟩
    . rw [hfill] at h
      rw [hfill'] at h'
      dsimp only at h h'
      split at h
      . next e₁ hrest =>
        split at h'
        . next e₁' hrest' =>
          cases h
          cases h'
          obtain ⟨k, i, hfirst, hsecond⟩ := ih hrest hrest'
          exact ⟨k + 1, i, failsAt_cons hfill hfirst, failsAt_cons hfill' hsecond⟩
        . contradiction
      . contradiction
    . rw [hfill] at h
      rw [hfill'] at h'
      cases h
      cases h'
      obtain ⟨i, hfirst, hsecond⟩ := Draft.exists_failsAt_of_fill hfill hfill'
      exact ⟨0, i, ⟨r, rfl, by simp, hfirst⟩, ⟨r, rfl, by simp, hsecond⟩⟩

theorem sameWrites_fieldWrites (d : Dataset) (kind : WriteKind) (t : TableHandle)
    (shown shown' : Row → Row) :
    d.SameWrites kind t shown shown' (fieldWrites d.schema.fields kind t shown d.rows)
      (fieldWrites d.schema.fields kind t shown' d.rows) :=
  ⟨fieldWrites_withoutRow _ _ _ _ _ _, fun _ h => fieldWrites_complete h,
    fun _ _ h h' => exists_failsAt_of_fieldWrites h h'⟩

end Dataset

/-!
# Planned rows
-/

namespace Row

variable {schema : RowSchema} {values : List Value} {intent : Intent} {planned : Row}
variable {kind : WriteKind}

/--
The row with its marker at the end.
-/
def marked (schema : RowSchema) (values : List Value) (intent : Intent) : Row :=
  named ⟨schema.fields ++ [.optional markerField .string]⟩ (values ++ [.string intent.name])

theorem indexOf?_marker (hmarker : markerField ∉ schema.names) :
    schema.indexOf? markerField = none := by
  unfold RowSchema.indexOf?
  rw [List.findIdx?_eq_none_iff]
  intro f hf
  simp only [beq_eq_false_iff_ne]
  intro hname
  apply hmarker
  rw [← hname]
  exact List.mem_map_of_mem hf

theorem withIntent_eq (hmarker : markerField ∉ schema.names) (values : List Value)
    (intent : Intent) :
    (named schema values).withIntent intent = .ok (marked schema values intent) := by
  unfold withIntent withField
  dsimp only [named]
  rw [indexOf?_marker hmarker]
  rfl

theorem isEdit_marked (hmarker : markerField ∉ schema.names)
    (hlength : values.length = schema.fields.length) (intent : Intent) :
    (named schema values).IsEdit (marked schema values intent) markerField
      (.string intent.name) := by
  have hpaired : (named schema values).Paired := ⟨schema, rfl, hlength.symm⟩
  obtain ⟨planned, hset, hedit⟩ := hpaired.isEdit markerField .string (.string intent.name)
  have hmarked := withIntent_eq hmarker values intent
  rw [withIntent, hset, Except.ok.injEq] at hmarked
  rwa [← hmarked]

theorem writeKind_marked [Calendar] (hmarker : markerField ∉ schema.names)
    (hlength : values.length = schema.fields.length) (intent : Intent) :
    (marked schema values intent).writeKind = intent.writeKind := by
  unfold writeKind
  rw [intent_of_fieldValue (isEdit_marked hmarker hlength intent).fieldValue_self]

theorem withoutMarker_marked (hmarker : markerField ∉ schema.names)
    (hlength : values.length = schema.fields.length) (intent : Intent) :
    (marked schema values intent).withoutMarker = named schema values := by
  rw [withoutMarker, (isEdit_marked hmarker hlength intent).withoutField_eq, withoutField]
  dsimp only [named]
  rw [indexOf?_marker hmarker]

theorem toWrite_marked [Calendar] (hmarker : markerField ∉ schema.names)
    (hlength : values.length = schema.fields.length) (hkind : intent.writeKind = .ok kind)
    (t : TableHandle) (dropUnknown : Bool) :
    (marked schema values intent).toWrite t dropUnknown
      =
    match Draft.fill dropUnknown ⟨t.name, named schema values⟩ (.empty t.schema)
        (schema.fields.zip values) with
    | .error e => .error e
    | .ok draft => .ok ⟨kind, t.name, draft⟩ := by
  unfold toWrite
  rw [writeKind_marked hmarker hlength, withoutMarker_marked hmarker hlength, hkind]
  rfl

/--
A row as the planned row without its marker is shown.
-/
def inSchema (schema : RowSchema) (r : Row) : Row :=
  named schema r.values

theorem toWrites_marked [Calendar] {dropUnknown : Bool} {t : TableHandle} {rows : List Row}
    (hmarker : markerField ∉ schema.names)
    (hlength : ∀ r ∈ rows, r.values.length = schema.fields.length)
    (hkind : intent.writeKind = .ok kind)
    (hknown : dropUnknown = false → ∀ f ∈ schema.fields, t.schema.column? f.name ≠ none) :
    toWrites t dropUnknown (rows.map fun r => marked schema r.values intent)
      = Dataset.fieldWrites schema.fields kind t (inSchema schema) rows := by
  induction rows with
  | nil => rfl
  | cons r rows ih =>
    have hfill : Draft.fill dropUnknown ⟨t.name, named schema r.values⟩ (.empty t.schema)
          (schema.fields.zip r.values)
        = Draft.fill true ⟨t.name, named schema r.values⟩ (.empty t.schema)
          (schema.fields.zip r.values) := by
      cases dropUnknown with
      | true => rfl
      | false =>
        apply Draft.fill_eq_fill_true
        intro e he
        exact hknown rfl e.1 (List.of_mem_zip he).1
    have hrest := ih fun q hq => hlength q (List.mem_cons_of_mem r hq)
    rw [List.map_cons, toWrites, toWrite_marked hmarker (hlength r List.mem_cons_self) hkind, hrest,
      hfill, Dataset.fieldWrites]
    unfold inSchema
    cases Draft.fill true ⟨t.name, named schema r.values⟩ (.empty t.schema)
      (schema.fields.zip r.values) <;> rfl

end Row

/-!
# Datasets
-/

namespace Dataset

variable {t : TableHandle} {kind : WriteKind} {fields : List Field} {rows : List Row}

theorem exists_columnsOf (hknown : ∀ f ∈ fields, t.schema.column? f.name ≠ none) :
    ∃ columns, columnsOf t fields = .ok columns
      ∧ ∀ target (d : Draft) values, d.schema = t.schema →
        putAll target d (columns.zip values) = Draft.fill true target d (fields.zip values) := by
  induction fields with
  | nil => exact ⟨[], rfl, fun target d values hschema => rfl⟩
  | cons f fields ih =>
    obtain ⟨columns, hcolumns, hput⟩ := ih fun g hg => hknown g (List.mem_cons_of_mem f hg)
    obtain ⟨c, hc⟩ := Option.ne_none_iff_exists'.1 (hknown f List.mem_cons_self)
    refine ⟨c :: columns, by rw [columnsOf, hc, hcolumns], ?_⟩
    intro target d values hschema
    cases values with
    | nil => rfl
    | cons v values =>
      rw [← hschema] at hc
      rw [List.zip_cons_cons, List.zip_cons_cons, putAll, Draft.fill, hc]
      dsimp only
      cases hd₁ : d.put c v target with
      | error e => rfl
      | ok d₁ => exact hput target d₁ values ((Draft.put_cellAfter hc hd₁).1.trans hschema)

/--
The writes of rows are those of other rows from which they are made, if the values that both have for
columns are the same.
-/
theorem rowWrites_map {columns : List Column} {made : Row → Row}
    (h : ∀ r ∈ rows, putAll ⟨t.name, made r⟩ (.empty t.schema) (columns.zip (made r).values)
      = Draft.fill true ⟨t.name, made r⟩ (.empty t.schema) (fields.zip r.values)) :
    rowWrites kind t columns (rows.map made) = fieldWrites fields kind t made rows := by
  induction rows with
  | nil => rfl
  | cons r rows ih =>
    have hrest := ih fun q hq => h q (List.mem_cons_of_mem r hq)
    rw [List.map_cons, rowWrites, fieldWrites, h r List.mem_cons_self]
    cases Draft.fill true ⟨t.name, made r⟩ (.empty t.schema) (fields.zip r.values) with
    | error e => rfl
    | ok draft =>
      cases hws : fieldWrites fields kind t made rows <;> rw [hws] at hrest <;> simp [hrest]

theorem writes_of_known (d : Dataset)
    (hknown : ∀ f ∈ d.schema.fields, t.schema.column? f.name ≠ none) :
    d.writes kind t = fieldWrites d.schema.fields kind t id d.rows := by
  obtain ⟨columns, hcolumns, hput⟩ := exists_columnsOf hknown
  unfold writes
  rw [hcolumns]
  dsimp only
  rw [← rowWrites_map fun r _ => hput ⟨t.name, id r⟩ (.empty t.schema) r.values rfl, List.map_id]

/-!
# Restricted datasets
-/

theorem length_keptPositions (keep : List String) (first : Nat) (fields : List Field) :
    (keptPositions keep first fields).length = (fields.filter (keep.contains ·.name)).length := by
  induction fields generalizing first with
  | nil => rfl
  | cons f fields ih =>
    unfold keptPositions
    rw [List.filter_cons]
    split <;> simp [ih]

theorem filter_zip_keptPositions {keep : List String} {first : Nat} {r : Row}
    (h : r.values.length = first + fields.length) :
    (fields.filter (keep.contains ·.name)).zip ((keptPositions keep first fields).map (valueAt r))
      = (fields.zip (r.values.drop first)).filter fun e => keep.contains e.1.name := by
  induction fields generalizing first with
  | nil => simp [keptPositions]
  | cons f fields ih =>
    have hlt : first < r.values.length := by
      rw [h, List.length_cons]
      omega
    have hlength : r.values.length = first + 1 + fields.length := by
      rw [h, List.length_cons]
      omega
    have hrest := ih hlength
    have hvalue : valueAt r first = r.values[first] := by
      simp [valueAt, hlt]
    rw [List.drop_eq_getElem_cons hlt, List.zip_cons_cons]
    unfold keptPositions
    rw [List.filter_cons, List.filter_cons]
    cases hf : keep.contains f.name with
    | false => simpa only [Bool.false_eq_true, if_false] using hrest
    | true =>
      simp only [if_true, List.map_cons, List.zip_cons_cons, hvalue]
      rw [hrest]

/--
A row as the restricted dataset has it.
-/
def keptRow (d : Dataset) (keep : List String) (r : Row) : Row :=
  if (keptPositions keep 0 d.schema.fields).length = d.schema.fields.length then
    r
  else
    .named ⟨d.schema.fields.filter (keep.contains ·.name)⟩
      ((keptPositions keep 0 d.schema.fields).map (valueAt r))

theorem retainFields_eq (d : Dataset) (keep : List String) :
    d.retainFields keep
      = ⟨⟨d.schema.fields.filter (keep.contains ·.name)⟩, d.rows.map (d.keptRow keep)⟩ := by
  unfold retainFields keptRow
  dsimp only
  split
  . next hall =>
    rw [length_keptPositions, List.length_filter_eq_length_iff, ← List.filter_eq_self] at hall
    rw [hall, List.map_id']
  . rfl

theorem zip_values_keptRow (d : Dataset) (keep : List String) {r : Row}
    (hlength : r.values.length = d.schema.fields.length) :
    (d.schema.fields.filter (keep.contains ·.name)).zip (d.keptRow keep r).values
      = (d.schema.fields.zip r.values).filter fun e => keep.contains e.1.name := by
  unfold keptRow
  split
  . next hall =>
    rw [length_keptPositions, List.length_filter_eq_length_iff] at hall
    rw [List.filter_eq_self.2 hall, List.filter_eq_self.2]
    intro e he
    exact hall e.1 (List.of_mem_zip he).1
  . rw [← Nat.zero_add d.schema.fields.length] at hlength
    exact filter_zip_keptPositions hlength

theorem writes_retainFields (d : Dataset) (kind : WriteKind) (t : TableHandle)
    (hlength : ∀ r ∈ d.rows, r.values.length = d.schema.fields.length) :
    (d.retainFields t.schema.names).writes kind t
      = fieldWrites d.schema.fields kind t (d.keptRow t.schema.names) d.rows := by
  have hknown : ∀ f ∈ d.schema.fields.filter (t.schema.names.contains ·.name),
      t.schema.column? f.name ≠ none := by
    intro f hf
    have hname := (List.mem_filter.1 hf).2
    rw [TableSchema.contains_names] at hname
    exact Option.isSome_iff_ne_none.1 hname
  obtain ⟨columns, hcolumns, hput⟩ := exists_columnsOf hknown
  rw [retainFields_eq, writes, hcolumns]
  apply rowWrites_map
  intro r hr
  rw [hput _ _ _ rfl, zip_values_keptRow d _ (hlength r hr)]
  apply Draft.fill_filter fun f => t.schema.names.contains f.name
  intro e he hname
  rw [TableSchema.contains_names] at hname
  exact Option.isNone_iff_eq_none.1 (Option.isSome_eq_false_iff.1 hname)

/--
Planned rows, marked with an intent that is carried out by writes, come to the same as a dataset of
the same rows that is restricted to the columns of the table, if fields that belong to no column are
dropped. If there are no such fields, the dataset need not be restricted, and it does not matter
whether they are dropped.
-/
theorem sameWrites_of_planned [Calendar] (d : Dataset) (t : TableHandle) {intent : Intent}
    {kind : WriteKind}
    (hkind : intent.writeKind = .ok kind) (hmarker : Row.markerField ∉ d.schema.names)
    (hlength : ∀ r ∈ d.rows, r.values.length = d.schema.fields.length) :
    ∃ planned,
      List.Forall₂ (fun r p => (Row.named d.schema r.values).withIntent intent = .ok p) d.rows planned
      ∧ d.SameWrites kind t (Row.inSchema d.schema) (d.keptRow t.schema.names)
        (Row.toWrites t true planned) ((d.retainFields t.schema.names).writes kind t)
      ∧ ((∀ f ∈ d.schema.fields, t.schema.column? f.name ≠ none) →
        d.SameWrites kind t (Row.inSchema d.schema) id
          (Row.toWrites t false planned) (d.writes kind t)) := by
  refine ⟨d.rows.map fun r => Row.marked d.schema r.values intent, ?_, ?_, ?_⟩
  . rw [List.forall₂_map_right_iff, List.forall₂_same]
    intro r hr
    exact Row.withIntent_eq hmarker r.values intent
  . rw [Row.toWrites_marked hmarker hlength hkind (by simp), writes_retainFields d kind t hlength]
    apply sameWrites_fieldWrites
  . intro hknown
    rw [Row.toWrites_marked hmarker hlength hkind fun _ => hknown, writes_of_known d hknown]
    apply sameWrites_fieldWrites

/--
Places with a remark that belongs to no column, and with a second number, which counts. The number of
the second row is a text.
-/
def remarkedPlaces : Dataset where
  schema := ⟨[.optional "id" .int32, .optional "remark" .string, .optional "region" .string,
    .optional "id" .int32]⟩
  rows :=
    [.bare [.int32 1, .string "new", .string "a", .int32 2],
      .bare [.string "1", .string "old", .string "b", .int32 3]]

/--
Places with the same fields that can all be written. The second number of the second row is missing.
-/
def renumberedPlaces : Dataset where
  schema := remarkedPlaces.schema
  rows :=
    [.bare [.int32 1, .string "new", .string "a", .int32 2],
      .bare [.int32 3, .null, .string "b", .null]]

/--
Places whose fields all belong to columns, given from the last column to the first.
-/
def namedPlaces : Dataset where
  schema := ⟨[.optional "name" .string, .optional "id" .int32, .optional "region" .string]⟩
  rows :=
    [.bare [.null, .int32 1, .string "a"],
      .bare [.string "inn", .int32 2, .string "b"]]

/--
Both ways fail at the first number of the second row, and only the restricted dataset shows the row
without the remark. Where the numbers can be written, both ways give the same writes, and without a
remark they do so for the dataset as it is.
-/
theorem sameWrites_of_remarkedPlaces :
    ((Intent.upsert.writeKind = .ok .upsert ∧ Row.markerField ∉ remarkedPlaces.schema.names
        ∧ ∀ r ∈ remarkedPlaces.rows, r.values.length = remarkedPlaces.schema.fields.length)
      ∧ ∃ planned,
        List.Forall₂
          (fun r p => (Row.named remarkedPlaces.schema r.values).withIntent .upsert = .ok p)
          remarkedPlaces.rows planned
        ∧ (Row.toWrites placesTable true planned).mapError TransferError.withoutRow
          = .error (.typeMismatch "places" "id" .int32 "String" (.bare []))
        ∧ (remarkedPlaces.retainFields placesTable.schema.names).writes .upsert placesTable
          = .error (.typeMismatch "places" "id" .int32 "String"
            (.named ⟨[.optional "id" .int32, .optional "region" .string, .optional "id" .int32]⟩
              [.string "1", .string "b", .int32 3])))
      ∧ (∃ planned,
        List.Forall₂
          (fun r p => (Row.named renumberedPlaces.schema r.values).withIntent .upsert = .ok p)
          renumberedPlaces.rows planned
        ∧ Row.toWrites placesTable true planned
          = .ok [placeWrite .upsert "a" 2, placeWrite .upsert "b" 3]
        ∧ (renumberedPlaces.retainFields placesTable.schema.names).writes .upsert placesTable
          = .ok [placeWrite .upsert "a" 2, placeWrite .upsert "b" 3])
      ∧ (∀ f ∈ namedPlaces.schema.fields, placesTable.schema.column? f.name ≠ none)
      ∧ ∃ planned,
        List.Forall₂ (fun r p => (Row.named namedPlaces.schema r.values).withIntent .insert = .ok p)
          namedPlaces.rows planned
        ∧ Row.toWrites placesTable false planned
          = .ok [placeWrite .insert "a" 1, placesTable.filledWrite .insert
            [.set "region" (.string "b"), .set "id" (.int32 2), .set "name" (.string "inn")]]
        ∧ namedPlaces.writes .insert placesTable
          = .ok [placeWrite .insert "a" 1, placesTable.filledWrite .insert
            [.set "region" (.string "b"), .set "id" (.int32 2), .set "name" (.string "inn")]] := by
  have hkind : Intent.upsert.writeKind = .ok .upsert := rfl
  have hinserts : Intent.insert.writeKind = .ok .insert := rfl
  have hmarker : Row.markerField ∉ remarkedPlaces.schema.names := by decide
  have hlength : ∀ r ∈ remarkedPlaces.rows,
      r.values.length = remarkedPlaces.schema.fields.length := by decide
  have hknown : ∀ f ∈ namedPlaces.schema.fields, placesTable.schema.column? f.name ≠ none := by
    decide
  obtain ⟨planned, hplanned, hsame, -⟩ :=
    sameWrites_of_planned remarkedPlaces placesTable hkind hmarker hlength
  obtain ⟨renumbered, hrenumbered, hsame', -⟩ :=
    sameWrites_of_planned renumberedPlaces placesTable hkind hmarker (by decide)
  obtain ⟨named, hnamed, -, hsame''⟩ :=
    sameWrites_of_planned namedPlaces placesTable hinserts (by decide) (by decide)
  refine ⟨⟨⟨hkind, hmarker, hlength⟩, planned, hplanned, ?_, rfl⟩,
    ⟨renumbered, hrenumbered, hsame'.eq_ok rfl, rfl⟩,
    hknown, named, hnamed, (hsame'' hknown).eq_ok rfl, rfl⟩
  rw [hsame.withoutRow_eq]
  rfl

end Dataset

end KeyedTables
