import Mathlib.Data.Finmap
import KeyedTables.Proofs.Table.Schema

/-!
This module contains which columns make a schema: those of the key come first, and there is one, no
two have the same name, and every decimal has possible digits. A single pass over the columns, which
checks each one and files its position under its name, comes to the same result, and what it has
filed by then says where every column is.
-/

namespace KeyedTables

theorem ColumnType.hasPossibleDigits_iff {type : ColumnType} :
    type.HasPossibleDigits ↔ ∀ precision scale, type = .decimal precision scale →
      1 ≤ precision ∧ precision ≤ 38 ∧ scale ≤ precision := by
  cases type with
  | decimal precision scale =>
    simp only [HasPossibleDigits, Decimal.maxPrecision, ColumnType.decimal.injEq]
    constructor
    . rintro h _ _ ⟨rfl, rfl⟩
      exact h
    . intro h
      exact h precision scale ⟨rfl, rfl⟩
  | _ => simp [HasPossibleDigits]

namespace Column

theorem withNullable_of_isKey {c : Column} (h : c.isKey = true) (nullable : Bool) :
    c.withNullable nullable = c := by
  obtain ⟨name, type, role⟩ := c
  cases role with
  | key => rfl
  | value _ => contradiction

theorem isNullable_of_isKey {c : Column} (h : c.isKey = true) : c.isNullable = false := by
  obtain ⟨name, type, role⟩ := c
  cases role with
  | key => rfl
  | value _ => contradiction

end Column

theorem keysFirst_iff {cs : List Column} :
    KeysFirst cs ↔ ∃ keys values, cs = keys ++ values ∧ (∀ c ∈ keys, c.isKey = true)
      ∧ ∀ c ∈ values, c.isKey = false := by
  constructor
  . intro h
    induction cs with
    | nil => exact ⟨[], [], rfl, by simp, by simp⟩
    | cons c cs ih =>
      cases hc : c.isKey with
      | true =>
        obtain ⟨keys, values, hcs, hkeys, hvalues⟩ := ih h.tail
        exact ⟨c :: keys, values, by rw [hcs]; rfl, List.forall_mem_cons.2 ⟨hc, hkeys⟩, hvalues⟩
      | false => exact ⟨[], c :: cs, rfl, by simp, fun d hd => h.isKey_eq_false hc hd⟩
  . rintro ⟨keys, values, rfl, hkeys, hvalues⟩
    unfold KeysFirst
    rw [List.pairwise_append]
    refine ⟨?_, ?_, ?_⟩
    . exact List.pairwise_of_forall_mem_list fun c hc d _ _ => hkeys c hc
    . apply List.pairwise_of_forall_mem_list
      intro c _ d hd hkey
      simp [hvalues d hd] at hkey
    . intro c hc d hd _
      exact hkeys c hc

namespace SchemaProblem

/--
The problem of a column by itself: `afterValue` tells whether a column outside the key came before,
and `taken` whether one of the same name did.
-/
def ofColumn? (afterValue taken : Bool) (c : Column) : Option SchemaProblem :=
  if c.isKey && afterValue then some (.lateKey c.name)
  else
    let named := if taken then some (.duplicate c.name) else none
    match c.type with
    | .decimal precision scale =>
      if precision = 0 ∨ Decimal.maxPrecision < precision ∨ precision < scale then
        some (.decimal c.name precision scale)
      else named
    | _ => named

theorem scan_cons (afterValue : Bool) (seen : List String) (c : Column) (cs : List Column) :
    scan afterValue seen (c :: cs)
      = (ofColumn? afterValue (seen.contains c.name) c).or
        (scan (afterValue || !c.isKey) (c.name :: seen) cs) := by
  have hnamed : (if seen.contains c.name then some (.duplicate c.name)
        else scan (afterValue || !c.isKey) (c.name :: seen) cs)
      = (if seen.contains c.name then some (SchemaProblem.duplicate c.name) else none).or
        (scan (afterValue || !c.isKey) (c.name :: seen) cs) := by
    split <;> rfl
  rw [scan, ofColumn?, hnamed]
  split
  . rfl
  . cases c.type with
    | decimal precision scale =>
      dsimp only
      split <;> rfl
    | _ => rfl

theorem taken_eq_false_of_ofColumn? {afterValue taken : Bool} {c : Column}
    (h : ofColumn? afterValue taken c = none) : taken = false := by
  cases taken with
  | false => rfl
  | true =>
    unfold ofColumn? at h
    split at h
    . contradiction
    . dsimp only at h
      split at h
      . split at h <;> contradiction
      . contradiction

theorem first?_eq_none_iff {cs : List Column} :
    first? cs = none ↔ cs ≠ [] ∧ (∀ c, cs.head? = some c → c.isKey = true)
      ∧ scan false [] cs = none := by
  cases cs with
  | nil => simp [first?]
  | cons c cs => by_cases hc : c.isKey <;> simp [first?, hc]

end SchemaProblem

namespace TableSchema

/-!
# Valid columns
-/

/--
The columns of a schema: those of the key come first, and there is one, no two have the same name,
and a decimal has 1 to 38 digits, at most all of them after the point.
-/
structure ValidColumns (cs : List Column) : Prop where
  ne_nil : cs ≠ []
  keys_lead : ∃ keys values, cs = keys ++ values ∧ keys ≠ [] ∧ (∀ c ∈ keys, c.isKey = true)
    ∧ ∀ c ∈ values, c.isKey = false
  names_nodup : (cs.map (·.name)).Nodup
  digits : ∀ c ∈ cs, ∀ precision scale, c.type = .decimal precision scale →
    1 ≤ precision ∧ precision ≤ 38 ∧ scale ≤ precision

theorem validColumns_iff {cs : List Column} :
    ValidColumns cs ↔ SchemaProblem.first? cs = none := by
  have hdigits : (∀ c ∈ cs, c.type.HasPossibleDigits) ↔
      ∀ c ∈ cs, ∀ precision scale, c.type = .decimal precision scale →
        1 ≤ precision ∧ precision ≤ 38 ∧ scale ≤ precision :=
    forall₂_congr fun _ _ => ColumnType.hasPossibleDigits_iff
  rw [SchemaProblem.first?_eq_none_iff, SchemaProblem.scan_eq_none_iff, keysFirst_iff, hdigits]
  constructor
  . rintro ⟨hne, ⟨keys, values, hcs, hkeys, hkey, hvalues⟩, hnames, hdigits⟩
    refine ⟨hne, ?_, by simp, ⟨keys, values, hcs, hkey, hvalues⟩, hnames, by simp, hdigits⟩
    intro c hc
    cases keys with
    | nil => contradiction
    | cons d keys =>
      rw [hcs, List.cons_append, List.head?_cons, Option.some.injEq] at hc
      exact hc ▸ hkey d List.mem_cons_self
  . rintro ⟨hne, hhead, -, ⟨keys, values, hcs, hkey, hvalues⟩, hnames, -, hdigits⟩
    refine ⟨hne, ⟨keys, values, hcs, ?_, hkey, hvalues⟩, hnames, hdigits⟩
    rintro rfl
    obtain ⟨c, rest, rfl⟩ := List.exists_cons_of_ne_nil hne
    rw [List.nil_append] at hcs
    have hc : c.isKey = false := hvalues c (hcs ▸ List.mem_cons_self)
    simp [hhead c rfl] at hc

theorem exists_ofColumns_iff {cs : List Column} :
    (∃ s, ofColumns cs = .ok s) ↔ SchemaProblem.first? cs = none := by
  unfold ofColumns
  split
  . next problem h => simp [h]
  . next h => simp [h]

theorem ofColumns_of_problem {cs : List Column} {problem : SchemaProblem}
    (h : SchemaProblem.first? cs = some problem) :
    ofColumns cs = .error (.invalidSchema problem.message) := by
  unfold ofColumns
  split
  . next found hfound =>
    rw [h, Option.some.injEq] at hfound
    rw [hfound]
  . next hnone => simp [h] at hnone

theorem columns_of_ofColumns {cs : List Column} {s : TableSchema} (h : ofColumns cs = .ok s) :
    s.columns = cs := by
  unfold ofColumns at h
  split at h
  . contradiction
  . rw [← Except.ok.inj h]

/-!
# A single pass
-/

/--
The positions of columns under their names.
-/
abbrev NameIndex := Finmap fun _ : String => Nat

/--
Check columns and file them under their names, from a position on.
-/
def file (afterValue : Bool) (position : Nat) (filed : NameIndex) :
    List Column → Except SchemaProblem NameIndex
  | [] => .ok filed
  | c :: cs =>
    match SchemaProblem.ofColumn? afterValue (filed.lookup c.name).isSome c with
    | some problem => .error problem
    | none => file (afterValue || !c.isKey) (position + 1) (filed.insert c.name position) cs

def fileAll : List Column → Except SchemaProblem NameIndex
  | [] => .error .empty
  | c :: cs => if c.isKey then file false 0 ∅ (c :: cs) else .error .leadingValue

theorem lookup_insert (filed : NameIndex) (n : String) (position : Nat) (name : String) :
    (filed.insert n position).lookup name
      = if name = n then some position else filed.lookup name := by
  split
  . next h => rw [h, Finmap.lookup_insert]
  . next h => rw [Finmap.lookup_insert_of_ne _ h]

/--
What filing columns comes to, if the scan for problems comes to this: the same problem, or all
columns are filed, after those that were filed before.
-/
inductive Filing (position : Nat) (filed : NameIndex) (cs : List Column) :
    Option SchemaProblem → Except SchemaProblem NameIndex → Prop where
  | problem (problem : SchemaProblem) : Filing position filed cs (some problem) (.error problem)
  | filed {out : NameIndex} (h : ∀ name, out.lookup name
      = (filed.lookup name).or ((cs.findIdx? (·.name == name)).map (· + position))) :
    Filing position filed cs none (.ok out)

theorem filing_file (afterValue : Bool) (position : Nat) (filed : NameIndex) (seen : List String)
    (cs : List Column) (h : ∀ name, (filed.lookup name).isSome = seen.contains name) :
    Filing position filed cs (SchemaProblem.scan afterValue seen cs)
      (file afterValue position filed cs) := by
  induction cs generalizing afterValue position filed seen with
  | nil =>
    apply Filing.filed
    simp
  | cons c cs ih =>
    rw [SchemaProblem.scan_cons, file, h c.name]
    cases hproblem : SchemaProblem.ofColumn? afterValue (seen.contains c.name) c with
    | some problem => exact .problem problem
    | none =>
      have hseen : ∀ name, ((filed.insert c.name position).lookup name).isSome
          = (c.name :: seen).contains name := by
        intro name
        rw [lookup_insert, List.contains_cons]
        by_cases hname : name = c.name
        . simp [hname]
        . simp [hname, h name]
      dsimp only
      rw [Option.none_or]
      have hrest := ih (afterValue || !c.isKey) (position + 1) (filed.insert c.name position)
        (c.name :: seen) hseen
      generalize SchemaProblem.scan (afterValue || !c.isKey) (c.name :: seen) cs = found
        at hrest ⊢
      generalize file (afterValue || !c.isKey) (position + 1) (filed.insert c.name position) cs
        = out at hrest ⊢
      cases hrest with
      | problem problem => exact .problem problem
      | filed hlookup =>
        apply Filing.filed
        intro name
        rw [hlookup, lookup_insert, List.findIdx?_cons]
        by_cases hname : name = c.name
        . have hnone : filed.lookup name = none := by
            rw [← Option.not_isSome_iff_eq_none, h, hname,
              SchemaProblem.taken_eq_false_of_ofColumn? hproblem]
            exact Bool.false_ne_true
          simp [hnone, hname]
        . have hother : (c.name == name) = false := beq_false_of_ne (Ne.symm hname)
          simp [hname, hother, Function.comp_def, Nat.add_right_comm, Nat.add_assoc]

theorem filing_fileAll (cs : List Column) :
    Filing 0 ∅ cs (SchemaProblem.first? cs) (fileAll cs) := by
  cases cs with
  | nil => exact .problem .empty
  | cons c cs =>
    rw [SchemaProblem.first?, fileAll]
    split
    . exact filing_file false 0 ∅ [] (c :: cs) (by simp)
    . exact .problem .leadingValue

theorem ofColumns_of_fileAll_error {cs : List Column} {problem : SchemaProblem}
    (h : fileAll cs = .error problem) :
    ofColumns cs = .error (.invalidSchema problem.message) := by
  have hfiling := filing_fileAll cs
  rw [h] at hfiling
  generalize hfound : SchemaProblem.first? cs = found at hfiling
  cases hfiling with
  | problem => exact ofColumns_of_problem hfound

theorem ofColumns_of_fileAll_ok {cs : List Column} {filed : NameIndex}
    (h : fileAll cs = .ok filed) :
    ∃ s, ofColumns cs = .ok s ∧ ∀ name, s.indexOf? name = filed.lookup name := by
  have hfiling := filing_fileAll cs
  rw [h] at hfiling
  generalize hfound : SchemaProblem.first? cs = found at hfiling
  cases hfiling with
  | filed hlookup =>
    refine ⟨⟨cs, hfound⟩, ofColumns_columns ⟨cs, hfound⟩, ?_⟩
    intro name
    rw [hlookup, Finmap.lookup_empty]
    simp [indexOf?]

/-!
# Columns that were accepted
-/

theorem keyCount_eq (s : TableSchema) : s.keyCount = s.columns.countP Column.isKey := by
  obtain ⟨keys, values, hcolumns, hkeys, hvalues⟩ := keysFirst_iff.1 s.keysFirst
  have hnone : values.takeWhile Column.isKey = [] := by
    cases values with
    | nil => rfl
    | cons c values => exact List.takeWhile_cons_of_neg (by simp [hvalues c])
  unfold keyCount
  rw [hcolumns, List.takeWhile_append_of_pos hkeys, hnone, List.append_nil, List.countP_append,
    List.countP_eq_length.2 hkeys, List.countP_eq_zero.2 (by simpa using hvalues), Nat.add_zero]

variable {s : TableSchema} {name : String} {c : Column}

theorem column?_eq_some_iff_indexOf? :
    s.column? name = some c ↔ ∃ i, s.indexOf? name = some i ∧ s.columns[i]? = some c := by
  rw [column?_eq_some_iff]
  constructor
  . rintro ⟨hmem, hname⟩
    obtain ⟨i, hi⟩ := List.mem_iff_getElem?.1 hmem
    exact ⟨i, indexOf?_eq_some_iff.2 ⟨c, hi, hname⟩, hi⟩
  . rintro ⟨i, hindex, hi⟩
    obtain ⟨d, hd, hname⟩ := indexOf?_eq_some_iff.1 hindex
    rw [hi, Option.some.injEq] at hd
    exact ⟨List.mem_of_getElem? hi, hd ▸ hname⟩

theorem requireColumn_eq_ok_iff : s.requireColumn name = .ok c ↔ s.column? name = some c := by
  unfold requireColumn
  cases s.column? name <;> simp

theorem requireColumn_eq_error_iff :
    s.requireColumn name = .error (.columnNotFound name) ↔ name ∉ s.names := by
  have hnone : s.column? name = none ↔ name ∉ s.names := by
    simp [column?, names]
  rw [← hnone]
  unfold requireColumn
  cases s.column? name <;> simp

theorem hasColumn_iff : s.hasColumn name = true ↔ name ∈ s.names := by
  simp [hasColumn, indexOf?, names]

/--
Columns are taken as a schema exactly if they are valid. In the schema, every column is found by its
name at its own position, and the key is all columns that belong to it. A single pass over the
columns finds the same problem, or has filed every column at this position.
-/
theorem ofColumns_exact (cs : List Column) :
    ((∃ s, ofColumns cs = .ok s) ↔ ValidColumns cs)
      ∧ (∀ s, ofColumns cs = .ok s →
        s.columns = cs
          ∧ (∀ name i, s.indexOf? name = some i ↔ ∃ c, cs[i]? = some c ∧ c.name = name)
          ∧ (∀ name c, s.column? name = some c ↔ ∃ i, s.indexOf? name = some i ∧ cs[i]? = some c)
          ∧ (∀ name c, s.requireColumn name = .ok c ↔ s.column? name = some c)
          ∧ (∀ name, s.requireColumn name = .error (.columnNotFound name) ↔ name ∉ cs.map (·.name))
          ∧ (∀ name, s.hasColumn name = true ↔ name ∈ cs.map (·.name))
          ∧ s.keyCount = cs.countP Column.isKey
          ∧ ∀ c ∈ cs, c.isKey = true →
            c.isNullable = false ∧ ∀ nullable, c.withNullable nullable = c)
      ∧ (∀ problem, fileAll cs = .error problem →
        ofColumns cs = .error (.invalidSchema problem.message))
      ∧ ∀ filed, fileAll cs = .ok filed →
        ∃ s, ofColumns cs = .ok s ∧ ∀ name, s.indexOf? name = filed.lookup name := by
  refine ⟨exists_ofColumns_iff.trans validColumns_iff.symm, ?_,
    fun _ => ofColumns_of_fileAll_error, fun _ => ofColumns_of_fileAll_ok⟩
  intro s hs
  obtain rfl := columns_of_ofColumns hs
  refine ⟨rfl, fun _ _ => indexOf?_eq_some_iff, fun _ _ => column?_eq_some_iff_indexOf?,
    fun _ _ => requireColumn_eq_ok_iff, fun _ => requireColumn_eq_error_iff,
    fun _ => hasColumn_iff, s.keyCount_eq, ?_⟩
  intro c _ hkey
  exact ⟨Column.isNullable_of_isKey hkey, Column.withNullable_of_isKey hkey⟩

/--
The columns of payments, which are made on an account and numbered there.
-/
def payments : List Column :=
  [.key "account" .string, .key "number" .int32, .value "amount" (.decimal 38 2),
    (Column.value "note" .string).withNullable false]

theorem ofColumns_exact_payments :
    ∃ s, ofColumns payments = .ok s ∧ s.keyCount = 2 ∧ s.indexOf? "note" = some 3
      ∧ s.requireColumn "payee" = .error (.columnNotFound "payee") := by
  obtain ⟨hvalid, hlookups, -⟩ := ofColumns_exact payments
  have hpayments : ValidColumns payments := by
    rw [validColumns_iff]
    decide
  obtain ⟨s, hs⟩ := hvalid.2 hpayments
  obtain ⟨-, hindex, -, -, hrequire, -, hkeys, -⟩ := hlookups s hs
  refine ⟨s, hs, ?_, ?_, ?_⟩
  . rw [hkeys]
    rfl
  . rw [hindex]
    exact ⟨_, rfl, rfl⟩
  . rw [hrequire]
    decide

end TableSchema

end KeyedTables
