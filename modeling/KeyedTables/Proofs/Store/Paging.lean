import KeyedTables.Proofs.Store.Pages
import KeyedTables.Proofs.Store.Reachable

/-!
This module contains that a scan, read page by page while there are rows, comes to its end with the
rows that the store returns for it at once.
-/

namespace KeyedTables

namespace Store

variable {s : Store} {t : TableHandle} {r : ScanRequest}

theorem exists_resolveConditions {schema : TableSchema} {ps : List InList}
    (h : ∀ p ∈ ps, schema.hasColumn p.column.name = true) :
    ∃ qs, resolveConditions schema ps = .ok qs := by
  induction ps with
  | nil => exact ⟨[], rfl⟩
  | cons p ps ih =>
    rw [List.forall_mem_cons] at h
    obtain ⟨qs, hqs⟩ := ih h.2
    obtain ⟨i, hi⟩ := Option.isSome_iff_exists.1 h.1
    exact ⟨(i, p) :: qs, by simp [resolveConditions, hi, hqs]⟩

/--
A scan for columns that the table has can be opened, whatever page size is asked for. Reading it
while there are rows ends. All pages have the size that was asked for, or one row if that is zero;
only the last may have fewer, and none is empty. They hold the rows that the store returns for the
scan, cell for cell and in the order of their keys, and after them the scan is exhausted.
-/
theorem reads_scan (hs : s.Reachable) (ht : s.openTable r.table.name = .ok t)
    (hconditions : ∀ p ∈ r.conditions, t.schema.hasColumn p.column.name = true) (n : Nat) :
    ∃ rows c pages last, s.scan (r.withPageSize n) = .ok (t.schema, rows)
      ∧ rows.Pairwise (fun a b => Key.order (t.schema.keyOf a) (t.schema.keyOf b) = .lt)
      ∧ s.openCursor (r.withPageSize n) = .ok c
      ∧ c.Reads pages last ∧ c.pages = .ok (pages, last)
      ∧ SplitInto (max n 1) (rows.map fun cells => ⟨t.schema, cells⟩) pages
      ∧ last.hasMore = false ∧ last.next = .error .scanExhausted := by
  obtain ⟨stored, hfind⟩ := find?_of_openTable ht
  obtain ⟨qs, hqs⟩ := exists_resolveConditions hconditions
  have hname := name_of_find? hfind
  have hscan : s.scan (r.withPageSize n) = .ok (t.schema, stored.toList.filter (meets qs)) := by
    simp [scan, lookup, ScanRequest.withPageSize, hfind, hqs]
  have hcursor : s.openCursor (r.withPageSize n)
      = .ok ⟨t.schema, stored.toList.filter (meets qs), max n 1, by omega, none⟩ := by
    unfold openCursor
    rw [hscan]
    rfl
  obtain ⟨pages, last, hreads, hopen, hend, hsplit⟩ := Cursor.exists_reads (c :=
    ⟨t.schema, stored.toList.filter (meets qs), max n 1, by omega, none⟩) rfl
  have hexhausted : last.next = .error .scanExhausted := by
    unfold Cursor.next
    rw [hopen, hend]
  refine ⟨_, _, pages, last, hscan, ?_, hcursor, hreads, Cursor.pages_eq_of_reads hreads hsplit,
    hsplit, Cursor.hasMore_eq_false_iff.2 hend, hexhausted⟩
  apply List.Pairwise.filter
  apply (hs.sound _ _ hfind).pairwise_order

/--
Attachments are told apart by a number. Each has a text and a signature in bytes, either of which
may be missing.
-/
def attachments : TableSchema where
  columns := [.key "id" .int32, .value "text" .binary, .value "signature" .binary]
  noProblem := by decide

def attachmentsTable : TableHandle := ⟨tableId 1, "attachments", attachments⟩

def attachmentWrite (id : Int32) (edits : List Edit) : Write :=
  attachmentsTable.filledWrite .insert (.set "id" (.int32 id) :: edits)

/--
Calls after which there are attachments with bytes that are missing and with none at all.
-/
def attachmentCalls : List Call :=
  [.createTable "attachments" attachments,
    .apply (attachmentWrite 3 [.set "text" (.binary []), .set "signature" (.binary [7])]),
    .apply (attachmentWrite 1 [.set "text" (.binary [1, 2]), .set "signature" (.binary [3])]),
    .apply (attachmentWrite 2 [.set "signature" (.binary [4, 5, 6])]),
    .apply (attachmentWrite 4 [])]

def attachmentsScan : ScanRequest where
  table := attachmentsTable
  conditions := [⟨.key "id" .int32, [.int32 3, .int32 1, .int32 2]⟩]
  pageSize := 1
  pageSize_pos := Nat.one_pos

def attachmentRow (id : Int32) (text signature : Option (List UInt8)) : Cells :=
  [some (.int32 id), text.map .binary, signature.map .binary]

theorem reads_attachmentsScan :
    ∃ s : Store, s.Reachable ∧ s.openTable attachmentsScan.table.name = .ok attachmentsTable
      ∧ (∀ p ∈ attachmentsScan.conditions, attachments.hasColumn p.column.name = true)
      ∧ ∃ c pages last, s.openCursor (attachmentsScan.withPageSize 2) = .ok c
        ∧ c.Reads pages last
        ∧ SplitInto 2
          ([attachmentRow 1 (some [1, 2]) (some [3]), attachmentRow 2 none (some [4, 5, 6]),
            attachmentRow 3 (some []) (some [7])].map fun cells => ⟨attachments, cells⟩) pages
        ∧ last.next = .error .scanExhausted := by
  have hadmits : Store.empty.AdmitsAll attachmentCalls :=
    ⟨trivial, .inl ⟨attachmentsTable, _, rfl, rfl⟩, .inl ⟨attachmentsTable, _, rfl, rfl⟩,
      .inl ⟨attachmentsTable, _, rfl, rfl⟩, .inl ⟨attachmentsTable, _, rfl, rfl⟩, trivial⟩
  have hreachable := reachable_runCalls .empty hadmits
  have hcolumns : ∀ p ∈ attachmentsScan.conditions,
      attachments.hasColumn p.column.name = true := by decide
  have hopen : (runCalls Store.call .empty attachmentCalls).2.openTable
      attachmentsScan.table.name = .ok attachmentsTable := rfl
  obtain ⟨rows, c, pages, last, hscan, -, hc, hreads, -, hsplit, -, hexhausted⟩ :=
    reads_scan hreachable hopen hcolumns 2
  have hrows : rows = [attachmentRow 1 (some [1, 2]) (some [3]),
      attachmentRow 2 none (some [4, 5, 6]), attachmentRow 3 (some []) (some [7])] :=
    (Prod.mk.inj (Except.ok.inj hscan)).2.symm
  rw [hrows] at hsplit
  exact ⟨_, hreachable, hopen, hcolumns, c, pages, last, hc, hreads, hsplit, hexhausted⟩

end Store

end KeyedTables
