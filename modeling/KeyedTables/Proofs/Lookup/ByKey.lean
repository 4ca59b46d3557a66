import KeyedTables.Proofs.Lookup.Found
import KeyedTables.Proofs.Store.Upserts

/-!
This module contains lookups by key. A filter row of the key fields of a row finds the rows whose
keys equal that of the row, cell by cell, where NaN equals nothing and the zeros equal each other.
If no column of the key holds floating point numbers, this is the row of the same key, and no other
one.
-/

namespace KeyedTables

/-!
# Equal keys
-/

namespace Cell

/--
A floating point cell that stands for no number.
-/
def isNaN : Cell → Bool
  | .float x => x.unpack.isNaN
  | .double x => x.unpack.isNaN
  | _ => false

/--
A floating point zero of either sign.
-/
def isZero : Cell → Bool
  | .float x => x.unpack.isZero
  | .double x => x.unpack.isZero
  | _ => false

theorem isNaN_of_isZero {v : Cell} (h : v.isZero = true) : v.isNaN = false := by
  have hunpacked : ∀ u : Unpacked, u.isZero = true → u.isNaN = false := by
    intro u hu
    cases u <;> simp [Unpacked.isZero, Unpacked.isNaN] at hu ⊢
  unfold isZero at h
  unfold isNaN
  split at h
  . exact hunpacked _ h
  . exact hunpacked _ h
  . contradiction

theorem equals_iff {type : ColumnType} {u v : Cell} (hu : u.fits type = true)
    (hv : v.fits type = true) :
    u.equals v = true ↔ u.isNaN = false ∧ (u = v ∨ u.isZero = true ∧ v.isZero = true) := by
  have hnumbers : u.equals v = true ↔ u.isNaN = false ∧ v.isNaN = false
      ∧ (u = v ∨ u.isZero = true ∧ v.isZero = true) := by
    -- cells that fit the same type are of the same kind
    cases type <;> cases u <;> simp only [fits, Bool.false_eq_true] at hu
      <;> cases v <;> simp only [fits, Bool.false_eq_true] at hv
      <;> simp [equals, isNaN, isZero, Binary32.equals, Binary64.equals, and_assoc]
  rw [hnumbers]
  constructor
  . rintro ⟨hnumber, -, h⟩
    exact ⟨hnumber, h⟩
  . rintro ⟨hnumber, heq | hzero⟩
    . exact ⟨hnumber, heq ▸ hnumber, .inl heq⟩
    . exact ⟨hnumber, isNaN_of_isZero hzero.2, .inr hzero⟩

theorem isNaN_isZero_of_fits {type : ColumnType} {v : Cell} (h : v.fits type = true)
    (hfloat : type ≠ .float) (hdouble : type ≠ .double) : v.isNaN = false ∧ v.isZero = false := by
  cases v <;> simp [isNaN, isZero]
  case float => cases type <;> simp [fits] at h hfloat
  case double => cases type <;> simp [fits] at h hdouble

end Cell

/--
Keys that differ at most in the signs of floating point zeros.
-/
def Key.EqualUpToZeros (k l : List Cell) : Prop :=
  List.Forall₂ (fun u v => u = v ∨ u.isZero = true ∧ v.isZero = true) k l

namespace Key

variable {k l : List Cell}

theorem equalUpToZeros_refl (k : List Cell) : EqualUpToZeros k k :=
  List.forall₂_same.2 fun _ _ => .inl rfl

theorem equalUpToZeros_iff (h : ∀ u ∈ k, u.isZero = false) : EqualUpToZeros k l ↔ k = l := by
  constructor
  . intro hkl
    unfold EqualUpToZeros at hkl
    induction hkl with
    | nil => rfl
    | cons huv _ ih =>
      rw [List.forall_mem_cons] at h
      rcases huv with rfl | hzero
      . rw [ih h.2]
      . rw [h.1] at hzero
        exact absurd hzero.1 Bool.false_ne_true
  . intro hkl
    rw [hkl]
    exact equalUpToZeros_refl l

theorem forall₂_equals_iff {s : TableSchema} (hk : s.FitsKey k) (hl : s.FitsKey l) :
    List.Forall₂ (fun u v => u.equals v = true) k l ↔
      (∀ u ∈ k, u.isNaN = false) ∧ EqualUpToZeros k l := by
  unfold TableSchema.FitsKey at hk hl
  unfold EqualUpToZeros
  generalize s.keyColumns = cs at hk hl
  induction hk generalizing l with
  | nil =>
    cases hl
    simp
  | @cons c u cs k hu _ ih =>
    cases hl with
    | @cons _ v _ l hv hl =>
      rw [List.forall₂_cons, List.forall₂_cons, List.forall_mem_cons, ih hl,
        Cell.equals_iff hu hv]
      exact and_and_and_comm

end Key

namespace TableSchema

variable {s : TableSchema} {cells other : Cells} {key : List Cell} {i : Nat} {c : Column}

theorem mem_keyColumns_iff :
    c ∈ s.keyColumns ↔ ∃ i : Nat, s.columns[i]? = some c ∧ c.isKey = true := by
  unfold keyColumns
  rw [List.mem_filter, List.mem_iff_getElem?, exists_and_right]

/--
Keys are related cell by cell if the cells in the columns of the key are.
-/
theorem KeyOf.forall₂_iff {R : Cell → Cell → Prop} {l : List Cell} (hk : s.KeyOf cells key)
    (hl : s.KeyOf other l) (hlength : cells.length = s.columns.length)
    (hlength' : other.length = s.columns.length) :
    List.Forall₂ R key l ↔
      ∀ (i : Nat) (c : Column), s.columns[i]? = some c → c.isKey = true →
        ∃ u v, cells[i]?.join = some u ∧ other[i]?.join = some v ∧ R u v := by
  obtain ⟨hk, -⟩ := hk
  obtain ⟨hl, -⟩ := hl
  unfold keyCells at hk hl
  generalize s.columns = cs at *
  induction cs generalizing cells other key l with
  | nil =>
    have hkey : key = [] := by simpa using hk.symm
    have hl : l = [] := by simpa using hl.symm
    simp [hkey, hl]
  | cons c cs ih =>
    cases cells with
    | nil => simp at hlength
    | cons cell cells =>
      cases other with
      | nil => simp at hlength'
      | cons cell' other =>
        have hlength : cells.length = cs.length := by simpa using hlength
        have hlength' : other.length = cs.length := by simpa using hlength'
        cases hc : c.isKey with
        | false =>
          rw [ih hlength hlength' (by simpa [hc] using hk) (by simpa [hc] using hl)]
          constructor
          . intro h i d hd hkey
            cases i with
            | zero => simp_all
            | succ i => simpa using h i d (by simpa using hd) hkey
          . intro h i d hd hkey
            simpa using h (i + 1) d (by simpa using hd) hkey
        | true =>
          cases key with
          | nil => simp [hc] at hk
          | cons u key =>
            cases l with
            | nil => simp [hc] at hl
            | cons v l =>
              simp only [List.zip_cons_cons, hc, List.filter_cons_of_pos, List.map_cons,
                List.cons.injEq] at hk hl
              rw [List.forall₂_cons, ih hlength hlength' hk.2 hl.2, hk.1, hl.1]
              constructor
              . rintro ⟨huv, h⟩ i d hd hkey
                cases i with
                | zero => exact ⟨u, v, rfl, rfl, huv⟩
                | succ i => simpa using h i d (by simpa using hd) hkey
              . intro h
                refine ⟨by simpa using h 0 c rfl hc, ?_⟩
                intro i d hd hkey
                simpa using h (i + 1) d (by simpa using hd) hkey

theorem KeyOf.exists_cell (h : s.KeyOf cells key) (hfit : FitColumns s.columns cells)
    (hc : s.columns[i]? = some c) (hkey : c.isKey = true) :
    ∃ v, cells[i]?.join = some v ∧ v.fits c.type = true := by
  obtain ⟨hlength, hfits⟩ := fitColumns_iff.1 hfit
  have hset : s.firstUnset? Column.isKey cells = none := by
    cases hunset : s.firstUnset? Column.isKey cells with
    | none => rfl
    | some name =>
      have := Key.encode_eq h
      rw [Key.encode_of_firstUnset? hunset] at this
      contradiction
  have hi : i < cells.length := by
    rw [hlength]
    exact (List.getElem?_eq_some_iff.1 hc).1
  have hne := TableSchema.firstUnset?_eq_none_iff.1 hset i c hc hkey
  rw [List.getElem?_eq_getElem hi] at hne
  cases hcell : cells[i] with
  | none => simp [hcell] at hne
  | some v =>
    have hv : cells[i]?.join = some v := by
      rw [List.getElem?_eq_getElem hi, hcell]
      rfl
    exact ⟨v, hv, hfits i c v hc hv⟩

end TableSchema

namespace Row

def keyIn (r : Row) (s : TableSchema) : List Cell :=
  s.keyOf (r.cells s)

/--
The fields of the row `q` are those that the row `r` has for the columns of the key.
-/
structure IsKeyOf (q r : Row) (s : TableSchema) : Prop where
  schema : ∃ fields, q.schema? = some fields
    ∧ ∀ name, name ∈ fields.names ↔ ∃ c ∈ s.keyColumns, c.name = name
  fieldValue_eq : ∀ c ∈ s.keyColumns, q.fieldValue c.name = r.fieldValue c.name

variable {q r : Row} {s : TableSchema} {cells : Cells} {c : Column}

theorem IsKeyOf.cellIn?_eq (h : q.IsKeyOf r s) (hc : c ∈ s.keyColumns) :
    q.cellIn? c = r.cellIn? c := by
  unfold cellIn?
  rw [h.fieldValue_eq c hc]

theorem fitColumns_cells (r : Row) (s : TableSchema) : FitColumns s.columns (r.cells s) := by
  rw [fitColumns_iff]
  refine ⟨by simp [Row.cells], ?_⟩
  intro i c v hc hv
  rw [getElem?_cells hc] at hv
  exact cellIn?_fits hv

theorem offers_of_cellIn? {v : Cell} (h : r.cellIn? c = some v) : r.Offers c := by
  unfold cellIn? at h
  split at h
  . next value hvalue =>
    refine ⟨value, hvalue, some v, ?_⟩
    intro target
    unfold Value.cellIn? at h
    split at h
    . next cell hcell =>
      rw [h] at hcell
      exact Value.toCell_eq_ok hcell target
    . contradiction
  . contradiction

theorem IsKeyOf.agreesOn_iff {i : Nat} (hq : q.IsKeyOf r s) (hc : s.columns[i]? = some c)
    (hkey : c.isKey = true) (hfit : FitColumns s.columns cells) :
    q.agreesOn s cells c.name = true ↔
      ∃ u v, (r.cells s)[i]?.join = some u ∧ cells[i]?.join = some v ∧ u.equals v = true := by
  have hmem : c ∈ s.keyColumns := TableSchema.mem_keyColumns_iff.2 ⟨i, hc, hkey⟩
  rw [agreesOn_eq q hc hfit.length_eq, hq.cellIn?_eq hmem, getElem?_cells hc]
  cases cells[i]?.join <;> cases r.cellIn? c <;> simp

theorem IsKeyOf.mem_names_iff {fields : RowSchema} (hq : q.IsKeyOf r s)
    (hfields : q.schema? = some fields) {name : String} :
    name ∈ fields.names ↔ ∃ c ∈ s.keyColumns, c.name = name := by
  obtain ⟨fields', hfields', hnames⟩ := hq.schema
  have heq : fields' = fields := by simpa [hfields'] using hfields
  rw [← heq, hnames]

theorem IsKeyOf.offers {fields : RowSchema} (hq : q.IsKeyOf r s) (hfields : q.schema? = some fields)
    (hr : s.KeyOf (r.cells s) (r.keyIn s)) :
    ∀ name ∈ fields.names, ∃ c, s.column? name = some c ∧ ∀ f ∈ [q], f.Offers c := by
  intro name hname
  obtain ⟨c, hc, hcname⟩ := (hq.mem_names_iff hfields).1 hname
  obtain ⟨i, hi, hkey⟩ := TableSchema.mem_keyColumns_iff.1 hc
  obtain ⟨v, hv, -⟩ := hr.exists_cell (fitColumns_cells r s) hi hkey
  rw [getElem?_cells hi, ← hq.cellIn?_eq hc] at hv
  refine ⟨c, TableSchema.column?_eq_some_iff.2 ⟨List.mem_of_getElem? hi, hcname⟩, ?_⟩
  intro f hf
  rw [List.mem_singleton.1 hf]
  exact offers_of_cellIn? hv

/--
The filter row finds the rows whose key equals that of its row, cell by cell.
-/
theorem IsKeyOf.found_iff_forall₂ {fields : RowSchema} (hq : q.IsKeyOf r s)
    (hfields : q.schema? = some fields) (hfit : FitColumns s.columns cells)
    (hcells : s.KeyOf cells (s.keyOf cells)) (hr : s.KeyOf (r.cells s) (r.keyIn s)) :
    found [q] s fields.names cells = true ↔
      List.Forall₂ (fun u v => u.equals v = true) (r.keyIn s) (s.keyOf cells) := by
  rw [hr.forall₂_iff hcells (fitColumns_cells r s).length_eq hfit.length_eq]
  unfold found
  rw [List.all_eq_true]
  simp only [List.any_cons, List.any_nil, Bool.or_false]
  constructor
  . intro h i c hc hkey
    rw [← hq.agreesOn_iff hc hkey hfit]
    apply h
    rw [hq.mem_names_iff hfields]
    exact ⟨c, TableSchema.mem_keyColumns_iff.2 ⟨i, hc, hkey⟩, rfl⟩
  . intro h name hname
    obtain ⟨c, hmem, rfl⟩ := (hq.mem_names_iff hfields).1 hname
    obtain ⟨i, hi, hkey⟩ := TableSchema.mem_keyColumns_iff.1 hmem
    rw [hq.agreesOn_iff hi hkey hfit]
    exact h i c hi hkey

theorem IsKeyOf.found_iff {fields : RowSchema} (hq : q.IsKeyOf r s)
    (hfields : q.schema? = some fields)
    (hexact : ∀ c ∈ s.keyColumns, c.type ≠ .float ∧ c.type ≠ .double)
    (hfit : FitColumns s.columns cells) (hcells : s.KeyOf cells (s.keyOf cells))
    (hr : s.KeyOf (r.cells s) (r.keyIn s)) :
    found [q] s fields.names cells = true ↔ s.keyOf cells = r.keyIn s := by
  have hplain : ∀ u ∈ r.keyIn s, u.isNaN = false ∧ u.isZero = false := by
    intro u hu
    obtain ⟨c, hc, hfits⟩ := exists_left_of_forall₂ hr.fitsKey hu
    exact Cell.isNaN_isZero_of_fits hfits (hexact c hc).1 (hexact c hc).2
  rw [hq.found_iff_forall₂ hfields hfit hcells hr, Key.forall₂_equals_iff hr.fitsKey hcells.fitsKey,
    Key.equalUpToZeros_iff fun u hu => (hplain u hu).2, and_iff_right fun u hu => (hplain u hu).1]
  exact eq_comm

end Row

namespace Rows

/--
Of rows with different keys, the one that is found under a key is the only one.
-/
theorem filter_eq_singleton {rows : Rows} {key : List UInt8} {cells : Cells} {p : Cells → Bool}
    (hfind : rows.find? key = some cells) (hp : ∀ e ∈ rows.entries, p e.2 = true ↔ e.1 = key) :
    rows.toList.filter p = [cells] := by
  unfold toList
  unfold find? at hfind
  have hascending := rows.ascending
  generalize rows.entries = entries at hfind hp hascending
  induction entries with
  | nil => contradiction
  | cons e entries ih =>
    rw [List.pairwise_cons] at hascending
    have hrest : ∀ d ∈ entries, p d.2 = true ↔ d.1 = key := fun d hd =>
      hp d (List.mem_cons_of_mem e hd)
    by_cases hkey : e.1 = key
    . have hcells : e.2 = cells := by simpa [hkey] using hfind
      have hnone : (entries.map (·.2)).filter p = [] := by
        rw [List.filter_eq_nil_iff, List.forall_mem_map]
        intro d hd hpd
        have hlt := hascending.1 d hd
        rw [hkey, (hrest d hd).1 hpd] at hlt
        exact List.lt_irrefl key hlt
      rw [List.map_cons, List.filter_cons_of_pos ((hp e List.mem_cons_self).2 hkey), hnone, hcells]
    . have hpe : ¬ p e.2 = true := by
        rw [hp e List.mem_cons_self]
        exact hkey
      rw [List.map_cons, List.filter_cons_of_neg hpe]
      exact ih (by simpa [hkey] using hfind) hrest hascending.2

end Rows

namespace Lookup

variable {store : Store} {t : TableHandle} {l : Lookup} {connection : Connection} {q r : Row}
variable {cells : Cells}

/--
A lookup for the key of a row returns the row of this key that the table has.
-/
theorem run_of_key (hstore : store.Sound) (ht : store.openTable t.name = .ok t)
    (hsupported : ∀ c ∈ t.schema.columns, c.type.IsSupported)
    (hexact : ∀ c ∈ t.schema.keyColumns, c.type ≠ .float ∧ c.type ≠ .double)
    (hknown : l.schemas.UsedFor store) (hconnection : connection.outage = {})
    (hq : q.IsKeyOf r t.schema)
    (hkey : t.schema.KeyOf (r.cells t.schema) (r.keyIn t.schema))
    (hrow : store.rowOf? t (r.keyIn t.schema) = some cells) :
    ∃ found, (l.run [q] t store connection).1 = .ok [found] ∧ found.Shows t.schema cells := by
  obtain ⟨fields, hfields, -⟩ := hq.schema
  obtain ⟨rows, out, hfind, hrun, hshows⟩ :=
    run_shows hstore ht hsupported hknown hconnection hfields (hq.offers hfields hkey)
  rw [Store.rowOf?_eq hstore hfind hkey.fitsKey] at hrow
  have hone : rows.toList.filter (Row.found [q] t.schema fields.names) = [cells] := by
    apply Rows.filter_eq_singleton hrow
    intro e he
    have hfiles := hstore t.name _ hfind e he
    rw [hq.found_iff hfields hexact hfiles.fitColumns hfiles.keyOf hkey,
      ← Key.encodeKey_inj hfiles.keyOf.fitsKey hkey.fitsKey, ← hfiles.eq_encodeKey]
  rw [hone] at hshows
  cases hshows with
  | cons hfound hrest =>
    cases hrest
    exact ⟨_, hrun, hfound⟩

end Lookup

end KeyedTables
