import KeyedTables.Table.Schema

/-!
This module contains what a schema guarantees of its columns. The scan for problems finds none
exactly if the columns of the key come first, the names are distinct, and every decimal has possible
digits.
-/

namespace KeyedTables

/--
A decimal of this type has possible digits. Other types have no digits to be checked.
-/
def ColumnType.HasPossibleDigits : ColumnType → Prop
  | .decimal precision scale => 0 < precision ∧ precision ≤ Decimal.maxPrecision ∧ scale ≤ precision
  | _ => True

/--
The columns of the key come before all others.
-/
def KeysFirst (cs : List Column) : Prop :=
  cs.Pairwise fun c d => d.isKey → c.isKey

namespace KeysFirst

theorem tail {c : Column} {cs : List Column} (h : KeysFirst (c :: cs)) : KeysFirst cs :=
  (List.pairwise_cons.1 h).2

theorem isKey_eq_false {c : Column} {cs : List Column} (h : KeysFirst (c :: cs))
    (hc : c.isKey = false) {d : Column} (hd : d ∈ c :: cs) : d.isKey = false := by
  cases List.mem_cons.1 hd with
  | inl heq => rw [heq, hc]
  | inr hmem =>
    have := (List.pairwise_cons.1 h).1 d hmem
    simpa [hc] using this

end KeysFirst

namespace SchemaProblem

theorem scan_cons_eq_none_iff {afterValue : Bool} {seen : List String} {c : Column}
    {cs : List Column} :
    scan afterValue seen (c :: cs) = none ↔
      (c.isKey → afterValue = false) ∧ c.type.HasPossibleDigits ∧ c.name ∉ seen
        ∧ scan (afterValue || !c.isKey) (c.name :: seen) cs = none := by
  rw [scan]
  split
  . next hlate =>
    simp only [Bool.and_eq_true] at hlate
    simp [hlate]
  . next hkey =>
    have hlate : c.isKey → afterValue = false := by simpa using hkey
    have hrest : (if seen.contains c.name then some (SchemaProblem.duplicate c.name)
        else scan (afterValue || !c.isKey) (c.name :: seen) cs) = none ↔
          c.name ∉ seen ∧ scan (afterValue || !c.isKey) (c.name :: seen) cs = none := by
      split <;> simp_all
    dsimp only
    split
    . next precision scale htype =>
      split
      . next hbad =>
        simp only [htype, ColumnType.HasPossibleDigits, reduceCtorEq, false_iff]
        omega
      . next hgood =>
        rw [hrest]
        simp only [htype, ColumnType.HasPossibleDigits]
        refine ⟨fun h => ⟨hlate, by omega, h⟩, fun h => h.2.2⟩
    . next hother =>
      have hdigits : c.type.HasPossibleDigits := by
        unfold ColumnType.HasPossibleDigits
        split <;> simp_all
      rw [hrest]
      exact ⟨fun h => ⟨hlate, hdigits, h⟩, fun h => h.2.2⟩

theorem scan_eq_none_iff {afterValue : Bool} {seen : List String} {cs : List Column} :
    scan afterValue seen cs = none ↔
      (afterValue → ∀ c ∈ cs, c.isKey = false) ∧ KeysFirst cs
        ∧ (cs.map (·.name)).Nodup ∧ (∀ c ∈ cs, c.name ∉ seen)
        ∧ ∀ c ∈ cs, c.type.HasPossibleDigits := by
  induction cs generalizing afterValue seen with
  | nil => simp [scan, KeysFirst]
  | cons c cs ih =>
    rw [scan_cons_eq_none_iff, ih]
    unfold KeysFirst
    simp only [List.pairwise_cons, List.map_cons, List.nodup_cons, List.mem_cons,
      List.mem_map]
    grind

end SchemaProblem

namespace TableSchema

/--
The scan of a schema found no problem, and its first column belongs to the key.
-/
theorem scan_eq_none (s : TableSchema) : SchemaProblem.scan false [] s.columns = none := by
  have h := s.noProblem
  unfold SchemaProblem.first? at h
  split at h
  . simp at h
  . next c cs hcs =>
    split at h
    . rwa [hcs]
    . simp at h

theorem keysFirst (s : TableSchema) : KeysFirst s.columns :=
  (SchemaProblem.scan_eq_none_iff.1 s.scan_eq_none).2.1

theorem names_nodup (s : TableSchema) : s.names.Nodup :=
  (SchemaProblem.scan_eq_none_iff.1 s.scan_eq_none).2.2.1

theorem hasPossibleDigits (s : TableSchema) {c : Column} (hc : c ∈ s.columns) :
    c.type.HasPossibleDigits :=
  (SchemaProblem.scan_eq_none_iff.1 s.scan_eq_none).2.2.2.2 c hc

/-!
# Columns by name
-/

variable {s : TableSchema} {name : String} {i j : Nat} {c d : Column}

theorem eq_of_name_eq (hc : s.columns[i]? = some c) (hd : s.columns[j]? = some d)
    (h : c.name = d.name) : i = j := by
  have hi : s.names[i]? = some c.name := by simp [names, hc]
  have hj : s.names[j]? = some c.name := by simp [names, hd, h]
  have hlt : i < s.names.length := (List.getElem?_eq_some_iff.1 hi).1
  exact (List.getElem?_inj hlt s.names_nodup).1 (hi.trans hj.symm)

theorem indexOf?_eq_some_iff :
    s.indexOf? name = some i ↔ ∃ c, s.columns[i]? = some c ∧ c.name = name := by
  unfold indexOf?
  rw [List.findIdx?_eq_some_iff_getElem]
  constructor
  . rintro ⟨hlt, hname, -⟩
    exact ⟨s.columns[i], List.getElem?_eq_getElem hlt, by simpa using hname⟩
  . rintro ⟨c, hc, hname⟩
    obtain ⟨hlt, hget⟩ := List.getElem?_eq_some_iff.1 hc
    refine ⟨hlt, by simp [hget, hname], ?_⟩
    intro j hj hother
    have hd : s.columns[j]? = some s.columns[j] := List.getElem?_eq_getElem (by omega)
    have := eq_of_name_eq hd hc (by simpa [hname] using hother)
    omega

theorem hasColumn_of_mem (hc : c ∈ s.columns) : s.hasColumn c.name = true := by
  obtain ⟨i, hi⟩ := List.mem_iff_getElem?.1 hc
  unfold hasColumn
  rw [indexOf?_eq_some_iff.2 ⟨c, hi, rfl⟩]
  rfl

theorem column?_eq_some_iff : s.column? name = some c ↔ c ∈ s.columns ∧ c.name = name := by
  unfold column?
  constructor
  . intro h
    exact ⟨List.mem_of_find?_eq_some h, by simpa using List.find?_some h⟩
  . rintro ⟨hc, hname⟩
    obtain ⟨i, hi⟩ := List.mem_iff_getElem?.1 hc
    cases hfind : s.columns.find? (·.name == name) with
    | none =>
      rw [List.find?_eq_none] at hfind
      exact absurd (by simp [hname]) (hfind c hc)
    | some d =>
      obtain ⟨j, hj⟩ := List.mem_iff_getElem?.1 (List.mem_of_find?_eq_some hfind)
      have hd : d.name = name := by simpa using List.find?_some hfind
      have hij := eq_of_name_eq hi hj (hname.trans hd.symm)
      rw [hij, hj] at hi
      exact hi

end TableSchema

end KeyedTables
