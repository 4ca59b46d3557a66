import KeyedTables.Transfer.Planned

/-!
This module contains what editing a row does to it, told by its entries, which are its fields with
their values in order. Names may repeat, and then it is always the first field of a name that is
found, replaced or dropped. So an edit of one name is never seen under another one.
-/

namespace KeyedTables

@[simp]
theorem Intent.ofName?_name (intent : Intent) : ofName? intent.name = some intent := by
  cases intent <;> decide

namespace Row

variable {r q : Row} {schema : RowSchema} {name other : String}

/-!
# Values by name
-/

theorem bind_findIdx?_eq (p : α → Bool) (as : List α) (bs : List β) :
    (as.findIdx? p).bind (bs[·]?) = ((as.zip bs).find? fun e => p e.1).map (·.2) := by
  induction as generalizing bs with
  | nil => rfl
  | cons a as ih =>
    cases bs with
    | nil => cases List.findIdx? p (a :: as) <;> simp
    | cons b bs =>
      rw [List.findIdx?_cons, List.zip_cons_cons, List.find?_cons]
      by_cases ha : p a
      . simp [ha]
      . simpa [ha, Option.bind_map, Function.comp_def] using ih bs

theorem fieldValue_eq (h : r.schema? = some schema) (name : String) :
    r.fieldValue name
      =
    match r.entries.find? (·.1.name == name) with
    | some e => .ok e.2
    | none => .error (.unknownField name) := by
  have hfind := bind_findIdx?_eq (fun f : Field => f.name == name) schema.fields r.values
  unfold fieldValue entries RowSchema.indexOf?
  rw [h]
  dsimp only
  cases hindex : schema.fields.findIdx? (·.name == name) <;> rw [hindex] at hfind
  . have : (schema.fields.zip r.values).find? (·.1.name == name) = none := by
      simpa using hfind.symm
    rw [this]
  . next i =>
    rw [Option.bind_some] at hfind
    dsimp only
    rw [hfind]
    cases (schema.fields.zip r.values).find? (·.1.name == name) <;> rfl

/-!
# Dropping a field
-/

theorem eraseIdx_zip (as : List α) (bs : List β) (i : Nat) :
    (as.zip bs).eraseIdx i = (as.eraseIdx i).zip (bs.eraseIdx i) := by
  induction as generalizing bs i with
  | nil => simp
  | cons a as ih =>
    cases bs with
    | nil => simp
    | cons b bs =>
      cases i with
      | zero => rfl
      | succ i => simp [ih]

theorem eraseP_zip (p : α → Bool) (as : List α) (bs : List β) :
    (as.zip bs).eraseP (fun e => p e.1)
      =
    match as.findIdx? p with
    | some i => (as.zip bs).eraseIdx i
    | none => as.zip bs := by
  induction as generalizing bs with
  | nil => rfl
  | cons a as ih =>
    cases bs with
    | nil => cases List.findIdx? p (a :: as) <;> simp
    | cons b bs =>
      rw [List.zip_cons_cons, List.eraseP_cons, List.findIdx?_cons, ih]
      cases p a with
      | true => rfl
      | false => cases List.findIdx? p as <;> rfl

theorem exists_schema_withoutField (hschema : r.schema? = some schema) (name : String) :
    ∃ rest, (r.withoutField name).schema? = some rest := by
  unfold withoutField
  rw [hschema]
  dsimp only
  split
  . exact ⟨schema, hschema⟩
  . exact ⟨_, rfl⟩

theorem entries_withoutField (hschema : r.schema? = some schema) (name : String) :
    (r.withoutField name).entries = r.entries.eraseP (·.1.name == name) := by
  have herase := eraseP_zip (fun f : Field => f.name == name) schema.fields r.values
  unfold withoutField entries
  rw [hschema]
  dsimp only
  rw [herase]
  unfold RowSchema.indexOf?
  cases schema.fields.findIdx? (·.name == name) with
  | none => simp [hschema]
  | some i =>
    dsimp only [named]
    rw [eraseIdx_zip]

theorem find?_eraseP_of_disjoint {p q : α → Bool} (h : ∀ a, q a = true → p a = false)
    (as : List α) : (as.eraseP p).find? q = as.find? q := by
  rcases as.exists_or_eq_self_of_eraseP p with heq | ⟨a, before, after, -, hp, has, herase⟩
  . rw [heq]
  . have hq : q a = false := by
      cases hq : q a with
      | false => rfl
      | true => simp [h a hq] at hp
    rw [herase, has, List.find?_append, List.find?_append, List.find?_cons_of_neg (by simp [hq])]

/--
Fields of other names are found without a field as with it.
-/
theorem fieldValue_withoutField (hschema : r.schema? = some schema) (hname : other ≠ name) :
    (r.withoutField name).fieldValue other = r.fieldValue other := by
  obtain ⟨rest, hrest⟩ := exists_schema_withoutField hschema name
  rw [fieldValue_eq hrest, fieldValue_eq hschema, entries_withoutField hschema,
    find?_eraseP_of_disjoint]
  intro e he
  rw [eq_of_beq he]
  simpa using hname

/-!
# Setting a field
-/

/--
The entries with the first one of this name replaced, or with one at their end if there is none.
-/
def setEntry (name : String) (type : FieldType) (v : Value) :
    List (Field × Value) → List (Field × Value)
  | [] => [(.optional name type, v)]
  | e :: entries =>
    if e.1.name = name then (.optional name type, v) :: entries
    else e :: setEntry name type v entries

section

variable (name : String) (type : FieldType) (v : Value) (entries : List (Field × Value))

theorem find?_setEntry_self :
    (setEntry name type v entries).find? (·.1.name == name) = some (.optional name type, v) := by
  induction entries with
  | nil => simp [setEntry, Field.optional]
  | cons e entries ih =>
    unfold setEntry
    split
    . simp [Field.optional]
    . next hname => rwa [List.find?_cons_of_neg (by simpa using hname)]

theorem find?_setEntry_of_ne (h : other ≠ name) :
    (setEntry name type v entries).find? (·.1.name == other)
      = entries.find? (·.1.name == other) := by
  induction entries with
  | nil => simp [setEntry, Field.optional, h.symm]
  | cons e entries ih =>
    unfold setEntry
    split
    . next hname =>
      rw [List.find?_cons_of_neg (by simpa [Field.optional] using h.symm),
        List.find?_cons_of_neg (by simpa [hname] using h.symm)]
    . rw [List.find?_cons, List.find?_cons, ih]

theorem eraseP_setEntry :
    (setEntry name type v entries).eraseP (·.1.name == name)
      = entries.eraseP (·.1.name == name) := by
  induction entries with
  | nil => simp [setEntry, Field.optional]
  | cons e entries ih =>
    unfold setEntry
    split
    . next hname => simp [Field.optional, hname]
    . next hname => simp [hname, ih]

end

theorem setEntry_zip (name : String) (type : FieldType) (v : Value) {fields : List Field}
    {values : List Value} (h : fields.length = values.length) :
    setEntry name type v (fields.zip values)
      =
    match fields.findIdx? (·.name == name) with
    | some i => (fields.set i (Field.optional name type)).zip (values.set i v)
    | none => (fields ++ [Field.optional name type]).zip (values ++ [v]) := by
  induction fields generalizing values with
  | nil =>
    rw [List.eq_nil_of_length_eq_zero h.symm]
    rfl
  | cons f fields ih =>
    cases values with
    | nil => contradiction
    | cons w values =>
      rw [List.zip_cons_cons, setEntry, List.findIdx?_cons, ih (Nat.succ.inj h)]
      by_cases hname : f.name = name
      . simp [hname]
      . cases fields.findIdx? (·.name == name) <;> simp [hname]

/-!
# Rows with a field for each value
-/

/--
The row has a schema, which has one field for each of its values.
-/
def Paired (r : Row) : Prop :=
  ∃ schema, r.schema? = some schema ∧ schema.fields.length = r.values.length

theorem paired_named {fields : List Field} {values : List Value}
    (h : fields.length = values.length) : (named ⟨fields⟩ values).Paired :=
  ⟨⟨fields⟩, rfl, h⟩

theorem Paired.ext (hr : r.Paired) (hq : q.Paired) (h : r.entries = q.entries) : r = q := by
  obtain ⟨⟨fields⟩, hfields, hlength⟩ := hr
  obtain ⟨⟨fields'⟩, hfields', hlength'⟩ := hq
  obtain ⟨_, values⟩ := r
  obtain ⟨_, values'⟩ := q
  dsimp only at hfields hfields' hlength hlength'
  subst hfields hfields'
  have hunzip := congrArg List.unzip h
  change (fields.zip values).unzip = (fields'.zip values').unzip at hunzip
  rw [List.unzip_zip hlength, List.unzip_zip hlength', Prod.mk.injEq] at hunzip
  rw [hunzip.1, hunzip.2]

theorem Paired.withoutField (h : r.Paired) (name : String) : (r.withoutField name).Paired := by
  have ⟨schema, hschema, hlength⟩ := h
  unfold Row.withoutField
  rw [hschema]
  dsimp only
  split
  . exact h
  . apply paired_named
    rw [List.length_eraseIdx, List.length_eraseIdx, hlength]

/--
Setting a field sets an entry.
-/
theorem Paired.withField (h : r.Paired) (name : String) (type : FieldType) (v : Value) :
    ∃ q, r.withField name type v = .ok q ∧ q.Paired
      ∧ q.entries = setEntry name type v r.entries := by
  obtain ⟨schema, hschema, hlength⟩ := h
  have hset := setEntry_zip name type v hlength
  unfold Row.withField entries RowSchema.indexOf?
  rw [hschema]
  dsimp only
  rw [hset]
  cases schema.fields.findIdx? (·.name == name) with
  | some i => exact ⟨_, rfl, paired_named (by simpa using hlength), rfl⟩
  | none => exact ⟨_, rfl, paired_named (by simpa using hlength), rfl⟩

/--
A row in which a field was set is the row that it was, but for the value of this field.
-/
structure IsEdit (r q : Row) (name : String) (v : Value) : Prop where
  paired : q.Paired
  fieldValue_self : q.fieldValue name = .ok v
  fieldValue_of_ne : ∀ other, other ≠ name → q.fieldValue other = r.fieldValue other
  withoutField_eq : q.withoutField name = r.withoutField name

theorem Paired.isEdit (h : r.Paired) (name : String) (type : FieldType) (v : Value) :
    ∃ q, r.withField name type v = .ok q ∧ r.IsEdit q name v := by
  obtain ⟨q, hset, hq, hentries⟩ := h.withField name type v
  have ⟨schema, hschema, _⟩ := h
  have ⟨schema', hschema', _⟩ := hq
  refine ⟨q, hset, hq, ?_, ?_, ?_⟩
  . rw [fieldValue_eq hschema', hentries, find?_setEntry_self]
  . intro other hother
    rw [fieldValue_eq hschema', fieldValue_eq hschema, hentries,
      find?_setEntry_of_ne _ _ _ _ hother]
  . apply (hq.withoutField name).ext (h.withoutField name)
    rw [entries_withoutField hschema', entries_withoutField hschema, hentries, eraseP_setEntry]

theorem intent_of_fieldValue [Calendar] {intent : Intent}
    (h : r.fieldValue markerField = .ok (.string intent.name)) : r.intent = .ok intent := by
  unfold Row.intent
  rw [h]
  simp

/--
Setting or dropping a field changes nothing that is found under other names. A field that was set
has its value, and dropping it afterwards leaves the same row as dropping it at once. So it is with
the marker, which gives back the intent that it was set to.
-/
theorem Paired.edits [Calendar] (h : r.Paired) :
    (∀ name type v, ∃ q, r.withField name type v = .ok q ∧ r.IsEdit q name v)
      ∧ (∀ name, (r.withoutField name).Paired
        ∧ ∀ other, other ≠ name → (r.withoutField name).fieldValue other = r.fieldValue other)
      ∧ ∀ intent, ∃ q, r.withIntent intent = .ok q ∧ q.Paired ∧ q.intent = .ok intent
        ∧ q.withoutMarker = r.withoutMarker ∧ q.withoutMarker.Paired := by
  have ⟨schema, hschema, _⟩ := h
  refine ⟨h.isEdit, ?_, ?_⟩
  . intro name
    exact ⟨h.withoutField name, fun other hother => fieldValue_withoutField hschema hother⟩
  . intro intent
    obtain ⟨q, hset, hedit⟩ := h.isEdit markerField .string (.string intent.name)
    exact ⟨q, hset, hedit.paired, intent_of_fieldValue hedit.fieldValue_self,
      hedit.withoutField_eq, hedit.paired.withoutField markerField⟩

/--
A row that has two fields of the same name.
-/
def twiceNoted : Row :=
  .ofFields [("note", .string, .string "a"), ("id", .int64, .int64 1), ("note", .string, .null)]

theorem edits_twiceNoted :
    twiceNoted.Paired ∧ ∃ q, twiceNoted.withField "note" .string (.string "b") = .ok q
      ∧ q.fieldValue "note" = .ok (.string "b") ∧ q.fieldValue "id" = .ok (.int64 1)
      ∧ q.withoutField "note" = twiceNoted.withoutField "note" := by
  have hpaired : twiceNoted.Paired := ⟨_, rfl, rfl⟩
  obtain ⟨hset, -, -⟩ := Paired.edits hpaired
  obtain ⟨q, hq, hedit⟩ := hset "note" .string (.string "b")
  exact ⟨hpaired, q, hq, hedit.fieldValue_self, hedit.fieldValue_of_ne "id" (by decide),
    hedit.withoutField_eq⟩

end Row

end KeyedTables
