import KeyedTables.Proofs.Key.Order
import KeyedTables.Table.Draft

/-!
This module contains the keys of rows and how they compare. The key of a row is the list of its key
cells. If all of them are set, the row has an encoded key, and encoded keys compare, byte by byte,
like the keys do, cell by cell.
-/

namespace KeyedTables

namespace TableSchema

def keyColumns (s : TableSchema) : List Column :=
  s.columns.filter Column.isKey

/--
The cells that a row has in the columns of the key.
-/
def keyCells (s : TableSchema) (cells : Cells) : List (Option Cell) :=
  ((s.columns.zip cells).filter (·.1.isKey)).map (·.2)

/--
A key of the table: one cell for each column of the key, such as may stand there.
-/
def FitsKey (s : TableSchema) (key : List Cell) : Prop :=
  List.Forall₂ (fun c v => v.fits c.type = true) s.keyColumns key

/--
All key cells of a row are set, and they are this key of the table.
-/
structure KeyOf (s : TableSchema) (cells : Cells) (key : List Cell) : Prop where
  keyCells_eq : s.keyCells cells = key.map some
  fitsKey : s.FitsKey key

/--
The key cells of a row that are set.
-/
def keyOf (s : TableSchema) (cells : Cells) : List Cell :=
  (s.keyCells cells).filterMap id

/--
The first column of some kind whose cell is unset.
-/
def firstUnset? (s : TableSchema) (kind : Column → Bool) (cells : Cells) : Option String :=
  ((s.columns.zip cells).find? fun (c, cell) => kind c && cell.isNone).map (·.1.name)

theorem keyColumns_hasPossibleDigits (s : TableSchema) :
    ∀ c ∈ s.keyColumns, c.type.HasPossibleDigits := by
  intro c hc
  exact s.hasPossibleDigits (List.mem_of_mem_filter hc)

end TableSchema

/--
The schema of places, which are told apart by a region and a number, and may have a name.
-/
def places : TableSchema where
  columns := [.key "region" .string, .key "id" .int32, .value "name" .string]
  noProblem := by decide

namespace Key

def encodeKey (key : List Cell) : List UInt8 :=
  key.flatMap encodeCell

/--
The order of the keys of a table: that of the first cells that differ.
-/
def order (k l : List Cell) : Ordering :=
  List.compareLex Cell.order k l

theorem encodeCells_eq {cs : List Column} (hcs : KeysFirst cs) {cells : Cells} {key : List Cell}
    (h : ((cs.zip cells).filter (·.1.isKey)).map (·.2) = key.map some) :
    encodeCells cs cells = .ok (encodeKey key) := by
  induction cs generalizing cells key with
  | nil =>
    have : key = [] := by simpa using h.symm
    simp [this, encodeCells, encodeKey]
  | cons c cs ih =>
    cases cells with
    | nil =>
      have : key = [] := by simpa using h.symm
      simp [this, encodeCells, encodeKey]
    | cons cell cells =>
      cases hc : c.isKey with
      | true =>
        cases key with
        | nil => simp [hc] at h
        | cons v key =>
          simp only [List.zip_cons_cons, hc, List.filter_cons_of_pos, List.map_cons,
            List.cons.injEq] at h
          simp [encodeCells, hc, h.1, ih hcs.tail h.2, encodeKey]
      | false =>
        -- no column of the key comes after one that is none, so nothing is left of the key
        have hnone : ((c :: cs).zip (cell :: cells)).filter (·.1.isKey) = [] := by
          rw [List.filter_eq_nil_iff]
          intro p hp
          simp [hcs.isKey_eq_false hc (List.of_mem_zip hp).1]
        rw [hnone] at h
        have : key = [] := by simpa using h.symm
        simp [this, encodeCells, hc, encodeKey]

theorem encode_eq {s : TableSchema} {cells : Cells} {key : List Cell} (h : s.KeyOf cells key) :
    encode s cells = .ok (encodeKey key) :=
  encodeCells_eq s.keysFirst h.keyCells_eq

theorem encodeCells_of_unset {cs : List Column} (hcs : KeysFirst cs) {cells : Cells} {name : String}
    (h : ((cs.zip cells).find? fun (c, cell) => c.isKey && cell.isNone).map (·.1.name) = some name) :
    encodeCells cs cells = .error name := by
  induction cs generalizing cells with
  | nil => simp at h
  | cons c cs ih =>
    cases cells with
    | nil => simp at h
    | cons cell cells =>
      cases hc : c.isKey with
      | true =>
        cases cell with
        | none =>
          have : c.name = name := by simpa [hc] using h
          simp [encodeCells, hc, this]
        | some v =>
          have := ih hcs.tail (by simpa [hc] using h)
          simp [encodeCells, hc, this]
      | false =>
        have hnone : ((c :: cs).zip (cell :: cells)).find?
            (fun (c, cell) => c.isKey && cell.isNone) = none := by
          rw [List.find?_eq_none]
          intro p hp
          simp [hcs.isKey_eq_false hc (List.of_mem_zip hp).1]
        rw [hnone] at h
        simp at h

theorem exists_key_of_set {cs : List Column} {cells : Cells} (hfit : FitColumns cs cells)
    (h : (cs.zip cells).find? (fun (c, cell) => c.isKey && cell.isNone) = none) :
    ∃ key : List Cell, ((cs.zip cells).filter (·.1.isKey)).map (·.2) = key.map some
      ∧ List.Forall₂ (fun c v => v.fits c.type = true) (cs.filter Column.isKey) key := by
  induction cs generalizing cells with
  | nil => exact ⟨[], rfl, .nil⟩
  | cons c cs ih =>
    cases cells with
    | nil => exact hfit.elim
    | cons cell cells =>
      rw [List.zip_cons_cons, List.find?_cons] at h
      split at h
      . simp at h
      . next hset =>
        obtain ⟨key, hkey, hfits⟩ := ih hfit.2 h
        cases hc : c.isKey with
        | false => exact ⟨key, by simp [hc, hkey], by simpa [hc] using hfits⟩
        | true =>
          cases cell with
          | none => simp [hc] at hset
          | some v =>
            refine ⟨v :: key, by simp [hc, hkey], ?_⟩
            rw [List.filter_cons_of_pos hc]
            exact .cons (hfit.1 v rfl) hfits

theorem encode_of_firstUnset? {s : TableSchema} {cells : Cells} {name : String}
    (h : s.firstUnset? Column.isKey cells = some name) : encode s cells = .error name :=
  encodeCells_of_unset s.keysFirst h

theorem keyOf_of_firstUnset? {s : TableSchema} {cells : Cells} (hfit : FitColumns s.columns cells)
    (h : s.firstUnset? Column.isKey cells = none) : s.KeyOf cells (s.keyOf cells) := by
  obtain ⟨key, hkey, hfits⟩ := exists_key_of_set hfit (by simpa [TableSchema.firstUnset?] using h)
  have hkeyOf : s.keyOf cells = key := by
    unfold TableSchema.keyOf TableSchema.keyCells
    rw [hkey]
    simp
  rw [hkeyOf]
  exact ⟨hkey, hfits⟩

theorem compare_encodeKey_of_forall₂ {cs : List Column}
    (hcs : ∀ c ∈ cs, c.type.HasPossibleDigits) {k l : List Cell}
    (hk : List.Forall₂ (fun c v => v.fits c.type = true) cs k)
    (hl : List.Forall₂ (fun c v => v.fits c.type = true) cs l) :
    compare (encodeKey k) (encodeKey l) = order k l ∧ (order k l = .eq → k = l) := by
  unfold encodeKey order
  -- the columns after the first one count only if the cells in it are equal
  induction hk generalizing l with
  | nil =>
    cases hl
    simp [List.compareLex_nil_nil]
  | @cons c u cs k hu hk ih =>
    cases hl with
    | @cons _ v _ l hv hl =>
      have huv := Cell.comparable_of_fits (hcs c (by simp)) hu hv
      obtain ⟨ihcompare, iheq⟩ := ih (fun c hc => hcs c (by simp [hc])) hl
      constructor
      . rw [List.flatMap_cons, List.flatMap_cons, compare_encodeCell huv]
        rw [List.compareLex_cons_cons, ihcompare]
      . intro h
        rw [List.compareLex_cons_cons, Ordering.then_eq_eq] at h
        rw [Cell.eq_of_order huv h.1, iheq h.2]

theorem compare_encodeKey {s : TableSchema} {k l : List Cell} (hk : s.FitsKey k)
    (hl : s.FitsKey l) : compare (encodeKey k) (encodeKey l) = order k l :=
  (compare_encodeKey_of_forall₂ s.keyColumns_hasPossibleDigits hk hl).1

/--
Different keys have different encodings.
-/
theorem encodeKey_inj {s : TableSchema} {k l : List Cell} (hk : s.FitsKey k) (hl : s.FitsKey l) :
    encodeKey k = encodeKey l ↔ k = l := by
  constructor
  . intro h
    apply (compare_encodeKey_of_forall₂ s.keyColumns_hasPossibleDigits hk hl).2
    rw [← compare_encodeKey hk hl, h]
    exact Std.ReflOrd.compare_self
  . intro h
    rw [h]

/--
Rows are filed in the order in which byte strings compare.
-/
theorem lt_iff_compare_eq_lt (x y : List UInt8) : x < y ↔ compare x y = .lt := by
  induction x generalizing y with
  | nil => cases y <;> simp
  | cons a x ih =>
    cases y with
    | nil => simp
    | cons b y =>
      have hhead : a < b ↔ compare a b = .lt := Std.compare_eq_lt.symm
      rw [List.cons_lt_cons_iff, List.compare_cons_cons, Ordering.then_eq_lt, hhead, ih]
      rw [Std.LawfulEqOrd.compare_eq_iff_eq]

/--
The encoded keys of two rows compare like the keys, they come in the same order in the table, and
they are equal only for the same key.
-/
theorem compare_encode {s : TableSchema} {a b : Cells} {k l : List Cell} (ha : s.KeyOf a k)
    (hb : s.KeyOf b l) :
    ∃ x y, encode s a = .ok x ∧ encode s b = .ok y ∧ compare x y = order k l
      ∧ (x < y ↔ order k l = .lt) ∧ (x = y ↔ k = l) := by
  refine ⟨encodeKey k, encodeKey l, encode_eq ha, encode_eq hb, ?_, ?_, ?_⟩
  . exact compare_encodeKey ha.fitsKey hb.fitsKey
  . rw [lt_iff_compare_eq_lt, compare_encodeKey ha.fitsKey hb.fitsKey]
  . exact encodeKey_inj ha.fitsKey hb.fitsKey

/--
A region that is a proper prefix of another comes first, whatever the numbers after them, also if
the other goes on with a zero.
-/
theorem compare_encode_regions :
    (places.KeyOf [some (.string "a"), some (.int32 9), none] [.string "a", .int32 9]
      ∧ places.KeyOf [some (.string "a\x00"), some (.int32 (-1)), none]
          [.string "a\x00", .int32 (-1)])
      ∧ ∃ x y,
        encode places [some (.string "a"), some (.int32 9), none] = .ok x
          ∧ encode places [some (.string "a\x00"), some (.int32 (-1)), none] = .ok y
          ∧ compare x y = .lt ∧ x < y ∧ x ≠ y := by
  have ha : places.KeyOf [some (.string "a"), some (.int32 9), none] [.string "a", .int32 9] :=
    ⟨rfl, .cons rfl (.cons rfl .nil)⟩
  have hb : places.KeyOf [some (.string "a\x00"), some (.int32 (-1)), none]
      [.string "a\x00", .int32 (-1)] :=
    ⟨rfl, .cons rfl (.cons rfl .nil)⟩
  have horder : order [.string "a", .int32 9] [.string "a\x00", .int32 (-1)] = .lt := by decide
  refine ⟨⟨ha, hb⟩, ?_⟩
  simpa [horder] using compare_encode ha hb

end Key

end KeyedTables
