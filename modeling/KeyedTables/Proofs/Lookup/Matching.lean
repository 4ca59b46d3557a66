import KeyedTables.Proofs.Transfer.Filling
import KeyedTables.Transfer.Lookup

/-!
This module contains which rows meet the conditions of a lookup: those that hold, in the column of
each name, the value that some filter row has under this name. The filter rows of different names
need not be the same.
-/

namespace KeyedTables

namespace Row

variable {s : TableSchema} {cells : Cells} {i : Nat} {c : Column}

/--
The row has a value for the column, which is missing or can be converted.
-/
def Offers (r : Row) (c : Column) : Prop :=
  ∃ v, r.fieldValue c.name = .ok v ∧ v.ConvertsTo c

/--
Among these cells, the one in the column of this name equals that of the row.
-/
def agreesOn (r : Row) (s : TableSchema) (cells : Cells) (name : String) : Bool :=
  (s.columns.zip cells).any fun (c, cell) =>
    c.name == name && cell.any fun v => (r.cellIn? c).any fun w => w.equals v

theorem agreesOn_eq (r : Row) (hc : s.columns[i]? = some c)
    (hlength : cells.length = s.columns.length) :
    r.agreesOn s cells c.name
      = cells[i]?.join.any fun v => (r.cellIn? c).any fun w => w.equals v := by
  have hi : i < cells.length := by
    rw [hlength]
    exact (List.getElem?_eq_some_iff.1 hc).1
  rw [List.getElem?_eq_getElem hi]
  have hzip : (s.columns.zip cells)[i]? = some (c, cells[i]) := by
    rw [List.getElem?_zip_eq_some]
    exact ⟨hc, List.getElem?_eq_getElem hi⟩
  rw [Bool.eq_iff_iff]
  unfold agreesOn
  rw [List.any_eq_true]
  constructor
  . rintro ⟨⟨d, cell⟩, hmem, hd⟩
    rw [Bool.and_eq_true, beq_iff_eq] at hd
    obtain ⟨j, hj⟩ := List.mem_iff_getElem?.1 hmem
    -- names are distinct, so the column is the one at the position
    have hji := TableSchema.eq_of_name_eq (List.getElem?_zip_eq_some.1 hj).1 hc hd.1
    rw [hji, hzip, Option.some.injEq, Prod.mk.injEq] at hj
    rw [hj.1, hj.2]
    exact hd.2
  . intro h
    exact ⟨_, List.mem_of_getElem? hzip, by simpa using h⟩

theorem agreesOn_eq_false {name : String} (r : Row)
    (h : ∀ c ∈ s.columns, c.name = name → r.cellIn? c = none) : r.agreesOn s cells name = false := by
  unfold agreesOn
  rw [List.any_eq_false]
  rintro ⟨c, cell⟩ hmem
  by_cases hname : c.name = name
  . simp [h c (List.of_mem_zip hmem).1 hname]
  . simp [hname]

/--
Some filter row agrees with the cells on each name.
-/
def found (filters : List Row) (s : TableSchema) (names : List String) (cells : Cells) : Bool :=
  names.all fun name => filters.any fun r => r.agreesOn s cells name

end Row

namespace Lookup

variable {t : TableHandle} {c : Column} {filters : List Row} {name : String} {names : List String}

theorem literals_eq (hname : c.name = name) (h : ∀ r ∈ filters, r.Offers c) :
    literals t c name filters = .ok (filters.filterMap (·.cellIn? c)) := by
  induction filters with
  | nil => rfl
  | cons r filters ih =>
    obtain ⟨v, hv, hconverts⟩ := h r List.mem_cons_self
    have hcell := Row.cellIn?_eq hv
    have hrest := ih fun q hq => h q (List.mem_cons_of_mem r hq)
    unfold literals
    rw [← hname, hv]
    dsimp only
    rw [hconverts.toCell_eq, hname, hrest, List.filterMap_cons, hcell]
    cases v.cellIn? c <;> rfl

theorem condition_eq (hc : t.schema.column? name = some c) (h : ∀ r ∈ filters, r.Offers c) :
    condition t filters name = .ok ⟨c, filters.filterMap (·.cellIn? c)⟩ := by
  have hfit : (filters.filterMap (·.cellIn? c)).find? (fun v => !v.fits c.type) = none := by
    rw [List.find?_eq_none]
    intro v hv
    obtain ⟨r, -, hr⟩ := List.mem_filterMap.1 hv
    simp [Row.cellIn?_fits hr]
  have hname := (TableSchema.column?_eq_some_iff.1 hc).2
  unfold condition
  rw [hc]
  dsimp only
  rw [literals_eq hname h]
  dsimp only
  unfold InList.make
  rw [hfit]

theorem holds_eq {cells : Cells} {i : Nat} (hc : t.schema.columns[i]? = some c)
    (hlength : cells.length = t.schema.columns.length) :
    InList.holds ⟨c, filters.filterMap (·.cellIn? c)⟩ cells[i]?.join
      = filters.any fun r => r.agreesOn t.schema cells c.name := by
  simp only [Row.agreesOn_eq _ hc hlength]
  cases cells[i]?.join with
  | none => simp [InList.holds]
  | some v =>
    unfold InList.holds
    dsimp only
    rw [List.any_filterMap]
    rfl

/--
A row of as many cells as the table has columns meets the conditions for names exactly if it is
found under them.
-/
theorem conditions_eq
    (h : ∀ name ∈ names, ∃ c, t.schema.column? name = some c ∧ ∀ r ∈ filters, r.Offers c) :
    ∃ ps qs, conditions t filters names = .ok ps ∧ Store.resolveConditions t.schema ps = .ok qs
      ∧ ∀ cells, cells.length = t.schema.columns.length →
        Store.meets qs cells = Row.found filters t.schema names cells := by
  induction names with
  | nil => exact ⟨[], [], rfl, rfl, fun _ _ => rfl⟩
  | cons name names ih =>
    obtain ⟨c, hc, hoffers⟩ := h name List.mem_cons_self
    obtain ⟨ps, qs, hps, hqs, hmeets⟩ := ih fun n hn => h n (List.mem_cons_of_mem name hn)
    obtain ⟨hmem, hname⟩ := TableSchema.column?_eq_some_iff.1 hc
    obtain ⟨i, hi⟩ := List.mem_iff_getElem?.1 hmem
    have hindex : t.schema.indexOf? c.name = some i :=
      TableSchema.indexOf?_eq_some_iff.2 ⟨c, hi, rfl⟩
    let p : InList := ⟨c, filters.filterMap (·.cellIn? c)⟩
    refine ⟨p :: ps, (i, p) :: qs, ?_, ?_, ?_⟩
    . simp [conditions, condition_eq hc hoffers, hps, p]
    . simp [Store.resolveConditions, hindex, hqs, p]
    . intro cells hlength
      have hp : p.holds cells[i]?.join
          = filters.any fun r => r.agreesOn t.schema cells name := by
        rw [holds_eq hi hlength, hname]
      have hrest := hmeets cells hlength
      unfold Store.meets Row.found at *
      rw [List.all_cons, List.all_cons, hrest, ← hp]

end Lookup

end KeyedTables
