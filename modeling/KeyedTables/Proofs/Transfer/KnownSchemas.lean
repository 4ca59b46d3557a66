import Mathlib.Data.Finset.Card
import KeyedTables.Proofs.Transfer.Reading
import KeyedTables.Transfer.KnownSchemas

/-!
This module contains what becomes known of the row schemas of tables that are asked for one after
the other. Under each name the first row schema that could be derived stays known, and nothing else
does, so that the number of schemas and the numbers of hits and misses account for everything that
was asked for.
-/

namespace KeyedTables

/-!
# The row schema of a table
-/

namespace Column

theorem fieldType_of_not_isSupported {c : Column} (h : ¬c.type.IsSupported) :
    c.fieldType = .error (.unsupportedType c.name c.type) := by
  unfold fieldType
  cases htype : c.type <;> simp_all [ColumnType.IsSupported]

theorem fields_eq_ok_iff {cs : List Column} {out : List Field} :
    fields cs = .ok out ↔
      List.Forall₂ (fun c f => ∃ type, c.fieldType = .ok type ∧ f = .optional c.name type)
        cs out := by
  induction cs generalizing out with
  | nil => simp [fields, eq_comm]
  | cons c cs ih =>
    rw [fields, List.forall₂_cons_left_iff]
    cases htype : c.fieldType with
    | error e => simp
    | ok type =>
      simp only [Except.ok.injEq, exists_eq_left', exists_and_left, ← ih]
      cases hrest : fields cs with
      | error e => simp
      | ok rest => simp [eq_comm]

/--
The first column whose type has no field type is the one that is named.
-/
theorem fields_eq_error {before after : List Column} {c : Column}
    (hbefore : ∀ d ∈ before, d.type.IsSupported) (hc : ¬c.type.IsSupported) :
    fields (before ++ c :: after) = .error (.unsupportedType c.name c.type) := by
  induction before with
  | nil => rw [List.nil_append, fields, fieldType_of_not_isSupported hc]
  | cons d before ih =>
    rw [List.forall_mem_cons] at hbefore
    obtain ⟨type, htype⟩ := fieldType_of_isSupported hbefore.1
    rw [List.cons_append, fields, htype, ih hbefore.2]

theorem exists_first_of_fields {cs : List Column} {e : TransferError}
    (h : fields cs = .error e) :
    ∃ before c after, cs = before ++ c :: after ∧ (∀ d ∈ before, d.type.IsSupported)
      ∧ ¬c.type.IsSupported := by
  induction cs with
  | nil => contradiction
  | cons c cs ih =>
    by_cases hc : c.type.IsSupported
    . obtain ⟨type, htype⟩ := fieldType_of_isSupported hc
      cases hrest : fields cs with
      | ok rest => simp [fields, htype, hrest] at h
      | error e' =>
        rw [fields, htype, hrest, Except.error.injEq] at h
        rw [h] at hrest
        obtain ⟨before, d, after, hcs, hbefore, hd⟩ := ih hrest
        refine ⟨c :: before, d, after, by rw [hcs]; rfl, ?_, hd⟩
        rw [List.forall_mem_cons]
        exact ⟨hc, hbefore⟩
    . exact ⟨[], c, cs, rfl, by simp, hc⟩

end Column

namespace TableSchema

variable {s : TableSchema}

/--
The row schema of a table, or why it has none: there is an optional field for each column in order,
of the name and the type of the column, unless some column has a type that fields do not have. The
first such column is the one that is named.
-/
inductive Derives (s : TableSchema) : Except TransferError RowSchema → Prop where
  | fields {schema : RowSchema}
    (h : List.Forall₂ (fun c f => f.name = c.name ∧ c.fieldType = .ok f.type ∧ f.nullable = true)
      s.columns schema.fields) : Derives s (.ok schema)
  | unsupported {before after : List Column} {c : Column}
    (hcolumns : s.columns = before ++ c :: after)
    (hbefore : ∀ d ∈ before, d.type.IsSupported) (hc : ¬c.type.IsSupported) :
    Derives s (.error (.unsupportedType c.name c.type))

theorem Derives.eq_rowSchema {out : Except TransferError RowSchema} (h : s.Derives out) :
    out = s.rowSchema := by
  unfold rowSchema
  cases h with
  | @fields schema h =>
    have hfields : Column.fields s.columns = .ok schema.fields := by
      rw [Column.fields_eq_ok_iff]
      apply h.imp
      rintro c ⟨name, type, nullable⟩ ⟨hname, htype, hnullable⟩
      exact ⟨type, htype, by simp_all [Field.optional]⟩
    rw [hfields]
  | unsupported hcolumns hbefore hc =>
    rw [hcolumns, Column.fields_eq_error hbefore hc]

theorem derives_rowSchema (s : TableSchema) : s.Derives s.rowSchema := by
  unfold rowSchema
  cases hfields : Column.fields s.columns with
  | ok fields =>
    apply Derives.fields
    apply (Column.fields_eq_ok_iff.1 hfields).imp
    rintro c f ⟨type, htype, rfl⟩
    exact ⟨rfl, htype, rfl⟩
  | error e =>
    obtain ⟨before, c, after, hcolumns, hbefore, hc⟩ := Column.exists_first_of_fields hfields
    rw [hcolumns, Column.fields_eq_error hbefore hc, Except.error.injEq] at hfields
    rw [← hfields]
    exact .unsupported hcolumns hbefore hc

theorem derives_iff {out : Except TransferError RowSchema} :
    s.Derives out ↔ out = s.rowSchema := by
  constructor
  . exact Derives.eq_rowSchema
  . rintro rfl
    exact s.derives_rowSchema

end TableSchema

namespace KnownSchemas

variable {k : KnownSchemas} {t u : TableHandle} {name : String} {schema : RowSchema}

/-!
# One table
-/

/--
What asking for the row schema of a table leads to: it is known already, it cannot be derived, or it
is derived and known from then on.
-/
inductive Answers (k : KnownSchemas) (t : TableHandle) :
    Except TransferError RowSchema × KnownSchemas → Prop where
  | known {schema : RowSchema} (hfind : k.find? t.name = some schema) :
    Answers k t (.ok schema, { k with hits := k.hits + 1 })
  | refused {e : TransferError} (hfind : k.find? t.name = none)
    (h : t.schema.rowSchema = .error e) :
    Answers k t (.error e, { k with misses := k.misses + 1 })
  | derived {schema : RowSchema} (hfind : k.find? t.name = none)
    (h : t.schema.rowSchema = .ok schema) :
    Answers k t (.ok schema,
      { k with entries := k.entries ++ [(t.name, schema)], misses := k.misses + 1 })

theorem answers_schemaOf (k : KnownSchemas) (t : TableHandle) : k.Answers t (k.schemaOf t) := by
  unfold schemaOf
  split
  . next schema hfind => exact .known hfind
  . next hfind =>
    split
    . next e h => exact .refused hfind h
    . next schema h => exact .derived hfind h

/--
What is known already stays known. Only the table that is asked for can become known.
-/
theorem find?_schemaOf (k : KnownSchemas) (t : TableHandle) (name : String) :
    (k.schemaOf t).2.find? name
      = (k.find? name).or (if t.name = name then t.schema.rowSchema.toOption else none) := by
  have h := k.answers_schemaOf t
  generalize k.schemaOf t = out at h ⊢
  cases h with
  | known hfind =>
    change k.find? name = _
    by_cases hname : t.name = name
    . rw [← hname, hfind, Option.some_or]
    . rw [if_neg hname, Option.or_none]
  | refused hfind h =>
    change k.find? name = _
    simp [h, Except.toOption]
  | @derived schema hfind h =>
    dsimp only
    unfold find?
    rw [List.find?_append, Option.map_or, h]
    by_cases hname : t.name = name
    . simp [hname, Except.toOption]
    . simp [hname]

/--
The row schema that is known for a table, if there is one, is the right one.
-/
def AgreesOn (k : KnownSchemas) (t : TableHandle) : Prop :=
  ∀ schema, k.find? t.name = some schema → t.schema.rowSchema = .ok schema

theorem agreesOn_new (t : TableHandle) : ({} : KnownSchemas).AgreesOn t := by
  intro schema hfind
  contradiction

theorem AgreesOn.schemaOf (h : k.AgreesOn t) (hu : u.name = t.name → u.schema = t.schema) :
    (k.schemaOf u).2.AgreesOn t := by
  intro schema hfind
  rw [find?_schemaOf, Option.or_eq_some_iff] at hfind
  rcases hfind with hold | ⟨-, hnew⟩
  . exact h schema hold
  . split at hnew
    . next hname =>
      rw [hu hname] at hnew
      cases hrow : t.schema.rowSchema <;> simp_all [Except.toOption]
    . contradiction

theorem AgreesOn.answer_eq (h : k.AgreesOn t) : (k.schemaOf t).1 = t.schema.rowSchema := by
  have hout := k.answers_schemaOf t
  generalize k.schemaOf t = out at hout ⊢
  cases hout with
  | known hfind => rw [h _ hfind]
  | refused _ hrow => rw [hrow]
  | derived _ hrow => rw [hrow]

/--
The answers that were given account for what is known and for the hits and misses: a miss made a row
schema known or ended in an error.
-/
structure Accounts (answers : List (Except TransferError RowSchema)) (k : KnownSchemas) : Prop where
  names_nodup : (k.entries.map (·.1)).Nodup
  misses_eq : k.misses = k.size + answers.countP (!·.isOk)
  hits_add_misses : k.hits + k.misses = answers.length

theorem accounts_new : Accounts [] {} := by
  constructor
  . exact List.nodup_nil
  . rfl
  . rfl

theorem isSome_find?_iff : (k.find? name).isSome ↔ name ∈ k.entries.map (·.1) := by
  unfold find?
  simp

theorem Accounts.schemaOf {answers : List (Except TransferError RowSchema)}
    (h : Accounts answers k) (t : TableHandle) :
    Accounts (answers ++ [(k.schemaOf t).1]) (k.schemaOf t).2 := by
  obtain ⟨hnames, hmisses, htotal⟩ := h
  unfold size at hmisses
  have hout := k.answers_schemaOf t
  generalize k.schemaOf t = out at hout ⊢
  cases hout with
  | known hfind =>
    refine ⟨hnames, ?_, ?_⟩
    . simp [size, hmisses, Except.isOk, Except.toBool]
    . simp only [List.length_append, List.length_singleton]
      omega
  | refused hfind hrow =>
    refine ⟨hnames, ?_, ?_⟩
    . simp [size, hmisses, Except.isOk, Except.toBool, Nat.add_assoc]
    . simp only [List.length_append, List.length_singleton]
      omega
  | derived hfind hrow =>
    refine ⟨?_, ?_, ?_⟩
    . have hnew : t.name ∉ k.entries.map (·.1) := by simp [← isSome_find?_iff, hfind]
      dsimp only
      rw [List.map_append]
      exact hnames.append (List.nodup_singleton _) (by simpa using hnew)
    . simp [size, hmisses, Except.isOk, Except.toBool, Nat.add_right_comm]
    . simp only [List.length_append, List.length_singleton]
      omega

/-!
# Tables one after the other
-/

/--
The row schemas of tables that are asked for one after the other, and what is known after that.
-/
def schemasOf (k : KnownSchemas) :
    List TableHandle → List (Except TransferError RowSchema) × KnownSchemas
  | [] => ([], k)
  | t :: tables =>
    let first := k.schemaOf t
    let rest := first.2.schemasOf tables
    (first.1 :: rest.1, rest.2)

theorem Accounts.schemasOf {answers : List (Except TransferError RowSchema)}
    (h : Accounts answers k) (tables : List TableHandle) :
    Accounts (answers ++ (k.schemasOf tables).1) (k.schemasOf tables).2 := by
  induction tables generalizing answers k with
  | nil => simpa [KnownSchemas.schemasOf] using h
  | cons t tables ih => simpa [KnownSchemas.schemasOf] using ih (h.schemaOf t)

/--
The row schema of the first of these tables that has this name and a row schema.
-/
def firstSchema? (tables : List TableHandle) (name : String) : Option RowSchema :=
  tables.findSome? fun t => if t.name = name then t.schema.rowSchema.toOption else none

theorem find?_schemasOf (k : KnownSchemas) (tables : List TableHandle) (name : String) :
    (k.schemasOf tables).2.find? name = (k.find? name).or (firstSchema? tables name) := by
  induction tables generalizing k with
  | nil => simp [schemasOf, firstSchema?]
  | cons t tables ih =>
    rw [schemasOf, ih, find?_schemaOf, Option.or_assoc]
    congr 1
    unfold firstSchema?
    rw [List.findSome?_cons]
    cases (if t.name = name then t.schema.rowSchema.toOption else none) <;> rfl

/--
Tables of the same name have the same columns.
-/
def OneSchemaPerName (tables : List TableHandle) : Prop :=
  ∀ t ∈ tables, ∀ u ∈ tables, t.name = u.name → t.schema = u.schema

theorem answers_schemasOf {tables : List TableHandle} (h : OneSchemaPerName tables)
    (hk : ∀ t ∈ tables, k.AgreesOn t) :
    (k.schemasOf tables).1 = tables.map (·.schema.rowSchema) := by
  induction tables generalizing k with
  | nil => rfl
  | cons t tables ih =>
    rw [schemasOf, List.map_cons, List.cons.injEq]
    refine ⟨(hk t List.mem_cons_self).answer_eq, ?_⟩
    apply ih
    . intro u hu w hw
      exact h u (List.mem_cons_of_mem t hu) w (List.mem_cons_of_mem t hw)
    . intro u hu
      have hu' := List.mem_cons_of_mem t hu
      exact (hk u hu').schemaOf (h t List.mem_cons_self u hu')

theorem firstSchema?_eq {tables : List TableHandle}
    (h : ∀ u ∈ tables, u.name = t.name → u.schema = t.schema) :
    firstSchema? tables t.name
      = if t.name ∈ tables.map (·.name) then t.schema.rowSchema.toOption else none := by
  unfold firstSchema?
  induction tables with
  | nil => rfl
  | cons u tables ih =>
    rw [List.forall_mem_cons] at h
    rw [List.findSome?_cons, ih h.2]
    by_cases hname : u.name = t.name
    . rw [if_pos hname, h.1 hname]
      cases t.schema.rowSchema <;> simp [hname, Except.toOption]
    . simp [hname, Ne.symm hname]

theorem isSome_firstSchema?_iff {tables : List TableHandle} :
    (firstSchema? tables name).isSome ↔
      ∃ t ∈ tables, t.schema.rowSchema.isOk = true ∧ t.name = name := by
  unfold firstSchema?
  rw [List.findSome?_isSome_iff]
  apply exists_congr
  intro t
  apply and_congr_right
  intro _
  by_cases hname : t.name = name
  . cases t.schema.rowSchema <;> simp [hname, Except.toOption, Except.isOk, Except.toBool]
  . simp [hname]

/--
As many row schemas are known as there are names under which one could be derived.
-/
theorem size_schemasOf {tables : List TableHandle} {answers : List (Except TransferError RowSchema)}
    (h : Accounts answers (({} : KnownSchemas).schemasOf tables).2) :
    (({} : KnownSchemas).schemasOf tables).2.size
      = ((tables.filter (·.schema.rowSchema.isOk)).map (·.name)).toFinset.card := by
  have hnames : ((({} : KnownSchemas).schemasOf tables).2.entries.map (·.1)).toFinset
      = ((tables.filter (·.schema.rowSchema.isOk)).map (·.name)).toFinset := by
    ext name
    rw [List.mem_toFinset, List.mem_toFinset, ← isSome_find?_iff, find?_schemasOf]
    change (firstSchema? tables name).isSome ↔ _
    rw [isSome_firstSchema?_iff]
    simp [and_assoc]
  rw [← hnames, List.toFinset_card_of_nodup h.names_nodup, List.length_map]
  rfl

/--
Every table is answered with its own row schema, or with the reason why it has none. One row schema
is known for each name that has one, and each call that failed was a miss besides those. What is
known of a table before it is asked for is nothing, unless it was asked for already and has a row
schema.
-/
theorem schemasOf_accounts {tables : List TableHandle} (h : OneSchemaPerName tables) :
    ∃ answers k, ({} : KnownSchemas).schemasOf tables = (answers, k)
      ∧ answers = tables.map (·.schema.rowSchema)
      ∧ (∀ t ∈ tables, ∀ out, t.schema.Derives out ↔ out = t.schema.rowSchema)
      ∧ k.size = ((tables.filter (·.schema.rowSchema.isOk)).map (·.name)).toFinset.card
      ∧ k.misses = k.size + tables.countP (!·.schema.rowSchema.isOk)
      ∧ k.hits + k.misses = tables.length
      ∧ ∀ before t after, tables = before ++ t :: after →
          (({} : KnownSchemas).schemasOf before).2.find? t.name
            = if t.name ∈ before.map (·.name) then t.schema.rowSchema.toOption else none := by
  have haccounts := accounts_new.schemasOf tables
  have hanswers := answers_schemasOf h fun t _ => agreesOn_new t
  rw [List.nil_append, hanswers] at haccounts
  refine ⟨_, _, rfl, hanswers, fun t _ out => TableSchema.derives_iff, size_schemasOf haccounts,
    ?_, ?_, ?_⟩
  . rw [haccounts.misses_eq, List.countP_map]
    rfl
  . rw [haccounts.hits_add_misses, List.length_map]
  . rintro before t after rfl
    rw [find?_schemasOf]
    apply firstSchema?_eq
    intro u hu hname
    exact h u (List.mem_append_left _ hu) t (by simp) hname

/--
A table of events by day. Generic rows have no days.
-/
def eventsTable : TableHandle where
  id := Store.tableId 2
  name := "events"
  schema := ⟨[.key "id" .int64, .value "day" .date], by decide⟩

theorem schemasOf_accounts_places :
    OneSchemaPerName [placesTable, eventsTable, placesTable, eventsTable, placesTable]
      ∧ ∃ answers k, ({} : KnownSchemas).schemasOf
          [placesTable, eventsTable, placesTable, eventsTable, placesTable] = (answers, k)
        ∧ k.size = 1 ∧ k.misses = 3 ∧ k.hits = 2 := by
  have honce : OneSchemaPerName
      [placesTable, eventsTable, placesTable, eventsTable, placesTable] := by
    unfold OneSchemaPerName
    decide
  obtain ⟨answers, k, hrun, -, -, hsize, hmisses, htotal, -⟩ := schemasOf_accounts honce
  have hone : (([placesTable, eventsTable, placesTable, eventsTable, placesTable].filter
      (·.schema.rowSchema.isOk)).map (·.name)).toFinset.card = 1 := by
    decide
  have htwo : [placesTable, eventsTable, placesTable, eventsTable, placesTable].countP
      (!·.schema.rowSchema.isOk) = 2 := by
    decide
  rw [hone] at hsize
  rw [hsize, htwo] at hmisses
  rw [hmisses] at htotal
  refine ⟨honce, answers, k, hrun, hsize, hmisses, ?_⟩
  simpa using htotal

end KnownSchemas

end KeyedTables
