import KeyedTables.Store.Scan

/-!
This module contains what is on a page: the next rows of the scan, unchanged. That the bytes of all
cells lie in one buffer shows nowhere, because each cell is cut out where it was put. Read page by
page, a scan comes to its end, and its pages hold all rows that it had.
-/

namespace KeyedTables

namespace Page

/--
The cells of a row are cut out of a buffer that has their bytes at the offset, wherever that is.
-/
theorem cutRow_append (before after : List UInt8) (cells : Cells) :
    cutRow (before ++ cells.flatMap cellBytes ++ after) before.length cells
      =
    (cells, (before ++ cells.flatMap cellBytes).length) := by
  induction cells generalizing before with
  | nil => simp [cutRow]
  | cons cell cells ih =>
    unfold cutRow
    split
    . contradiction
    . next bytes rest heq =>
      cases heq
      have hbuffer : before ++ (some (.binary bytes) :: cells).flatMap cellBytes ++ after
          = (before ++ bytes) ++ cells.flatMap cellBytes ++ after := by
        simp [cellBytes]
      have hcut : (((before ++ bytes) ++ cells.flatMap cellBytes ++ after).take
          (before.length + bytes.length)).drop before.length = bytes := by
        simp [List.take_append]
      have hrest := ih (before ++ bytes)
      rw [List.length_append] at hrest
      rw [hbuffer]
      dsimp only
      rw [hcut, hrest]
      simp [cellBytes]
    . next cell' rest hnot heq =>
      cases heq
      have hnone : cellBytes cell = [] := by
        unfold cellBytes
        split
        . next bytes => exact absurd rfl (hnot bytes)
        . rfl
      rw [List.flatMap_cons, hnone, List.nil_append, ih before]

theorem cut_append (before after : List UInt8) (rows : List Cells) :
    cut (before ++ buffer rows ++ after) before.length rows = rows := by
  induction rows generalizing before with
  | nil => rfl
  | cons cells rows ih =>
    have hbuffer : before ++ buffer (cells :: rows) ++ after
        = before ++ cells.flatMap cellBytes ++ (buffer rows ++ after) := by
      simp [buffer]
    have hrest := ih (before ++ cells.flatMap cellBytes)
    unfold cut
    rw [hbuffer, cutRow_append]
    dsimp only
    rw [← List.append_assoc, hrest]

@[simp]
theorem cut_buffer (rows : List Cells) : cut (buffer rows) 0 rows = rows := by
  have h := cut_append [] [] rows
  rwa [List.nil_append, List.append_nil] at h

end Page

/--
Pages of at most `n` rows, none of them empty and all but the last one full, which together are
these rows.
-/
structure SplitInto (n : Nat) (rows : List α) (pages : List (List α)) : Prop where
  flatten_eq : pages.flatten = rows
  ne_nil : ∀ page ∈ pages, page ≠ []
  length_le : ∀ page ∈ pages, page.length ≤ n
  length_eq : ∀ page ∈ pages.dropLast, page.length = n

namespace SplitInto

variable {n : Nat} {rows : List α} {pages : List (List α)}

theorem nil (n : Nat) : SplitInto n ([] : List α) [] := by
  constructor <;> simp

theorem cons (hn : 0 < n) (hrows : rows ≠ []) (h : SplitInto n (rows.drop n) pages) :
    SplitInto n rows (rows.take n :: pages) := by
  constructor
  case flatten_eq => rw [List.flatten_cons, h.flatten_eq, List.take_append_drop]
  case ne_nil =>
    rw [List.forall_mem_cons]
    refine ⟨?_, h.ne_nil⟩
    intro hnil
    rw [List.take_eq_nil_iff] at hnil
    cases hnil with
    | inl hzero => omega
    | inr hnone => exact hrows hnone
  case length_le =>
    rw [List.forall_mem_cons]
    refine ⟨?_, h.length_le⟩
    apply List.length_take_le
  case length_eq =>
    cases hpages : pages with
    | nil => simp
    | cons page rest =>
      -- there are rows for a further page, so that this one is full
      have hpage := h.ne_nil page (by simp [hpages])
      have hmore : rows.drop n ≠ [] := by
        rw [← h.flatten_eq, hpages]
        simp [hpage]
      rw [ne_eq, List.drop_eq_nil_iff] at hmore
      rw [List.dropLast_cons_cons, List.forall_mem_cons, ← hpages]
      refine ⟨?_, h.length_eq⟩
      rw [List.length_take]
      omega

theorem length_pages_le (h : SplitInto n rows pages) : pages.length ≤ rows.length := by
  have hne := h.ne_nil
  rw [← h.flatten_eq]
  clear h
  induction pages with
  | nil => apply Nat.zero_le
  | cons page pages ih =>
    rw [List.forall_mem_cons] at hne
    have hpage := List.length_pos_iff.2 hne.1
    have hpages := ih hne.2
    rw [List.length_cons, List.flatten_cons, List.length_append]
    omega

end SplitInto

namespace Cursor

theorem next_eq {c : Cursor} (hopen : c.allowance? = none) (hmore : c.remaining ≠ []) :
    c.next = .ok ((c.remaining.take c.pageSize).map fun cells => ⟨c.schema, cells⟩,
      { c with remaining := c.remaining.drop c.pageSize }) := by
  unfold next
  cases hremaining : c.remaining with
  | nil => exact absurd hremaining hmore
  | cons cells rows => simp [hopen, spend]

theorem hasMore_eq_false_iff {c : Cursor} : c.hasMore = false ↔ c.remaining = [] := by
  unfold hasMore
  simp

/--
Pages are read as long as the cursor has more rows. The cursor that is left has none.
-/
inductive Reads : Cursor → List (List Record) → Cursor → Prop where
  | done {c : Cursor} (h : c.hasMore = false) : Reads c [] c
  | page {c c' last : Cursor} {page : List Record} {pages : List (List Record)}
    (h : c.hasMore = true) (hnext : c.next = .ok (page, c')) (hrest : Reads c' pages last) :
    Reads c (page :: pages) last

theorem Reads.readPages_eq {c last : Cursor} {pages : List (List Record)}
    (h : c.Reads pages last) {fuel : Nat} (hfuel : pages.length ≤ fuel) :
    c.readPages fuel = .ok (pages, last) := by
  induction h generalizing fuel with
  | done h =>
    cases fuel with
    | zero => rfl
    | succ fuel => simp [readPages, h]
  | page h hnext _ ih =>
    cases fuel with
    | zero => simp at hfuel
    | succ fuel =>
      rw [List.length_cons, Nat.add_le_add_iff_right] at hfuel
      simp [readPages, h, hnext, ih hfuel]

/--
Reading a cursor that nothing interrupts ends with no rows left. Its pages hold all rows that
remained, each once and in order.
-/
theorem exists_reads {c : Cursor} (hopen : c.allowance? = none) :
    ∃ pages last, c.Reads pages last ∧ last.allowance? = none ∧ last.remaining = []
      ∧ SplitInto c.pageSize (c.remaining.map fun cells => ⟨c.schema, cells⟩) pages := by
  induction hlength : c.remaining.length using Nat.strongRecOn generalizing c with
  | ind length ih =>
    by_cases hmore : c.remaining = []
    . refine ⟨[], c, .done (hasMore_eq_false_iff.2 hmore), hopen, hmore, ?_⟩
      rw [hmore]
      apply SplitInto.nil
    . have hhas : c.hasMore = true := by
        rw [← Bool.not_eq_false, hasMore_eq_false_iff]
        exact hmore
      have hpos := c.pageSize_pos
      have hless : (c.remaining.drop c.pageSize).length < length := by
        have := List.length_pos_iff.2 hmore
        rw [List.length_drop]
        omega
      obtain ⟨pages, last, hreads, hlast, hend, hsplit⟩ :=
        ih _ hless (c := { c with remaining := c.remaining.drop c.pageSize }) hopen rfl
      refine ⟨_, last, .page hhas (next_eq hopen hmore) hreads, hlast, hend, ?_⟩
      rw [List.map_take]
      apply SplitInto.cons hpos (by simpa using hmore)
      rw [← List.map_drop]
      exact hsplit

theorem pages_eq_of_reads {c last : Cursor} {pages : List (List Record)}
    (h : c.Reads pages last)
    (hsplit : SplitInto c.pageSize (c.remaining.map fun cells => ⟨c.schema, cells⟩) pages) :
    c.pages = .ok (pages, last) := by
  apply h.readPages_eq
  simpa using hsplit.length_pages_le

/--
The pages of a cursor that nothing interrupts hold all rows that remain, each once and in order.
-/
theorem pages_eq {c : Cursor} (hopen : c.allowance? = none) :
    ∃ pages last, c.pages = .ok (pages, last)
      ∧ pages.flatten = c.remaining.map fun cells => ⟨c.schema, cells⟩ := by
  obtain ⟨pages, last, hreads, -, -, hsplit⟩ := exists_reads hopen
  exact ⟨pages, last, pages_eq_of_reads hreads hsplit, hsplit.flatten_eq⟩

end Cursor

end KeyedTables
