import KeyedTables.Proofs.Store.Upserts

/-!
This module contains that lists of writes may be applied again without harm. Upserts that were all
taken are all taken again, and inserts are all turned down, and either way the store stays as the
first pass left it.
-/

namespace KeyedTables

namespace Store

variable {s : Store} {a : Address} {v w : Write} {ws : List Write} {status : Status}

/-!
# Inserts
-/

/--
An insert that is turned down is turned down later, too.
-/
theorem refused_applied (hw : s.Suits w) (hinsert : w.kind = .insert) (hv : s.Suits v)
    (hkind : v.kind ≠ .delete) (h : s.apply w = .error status) :
    ∃ status, (s.applied v).apply w = .error status := by
  have htarget := target_applied s v w
  cases ha : s.target w with
  | error status =>
    rw [ha] at htarget
    exact ⟨status, apply_of_target_error htarget⟩
  | ok a =>
    rw [ha] at htarget
    cases hrow : (s.applied v).rowAt a with
    | some cells =>
      exact ⟨_, HasRow.apply_insert ⟨a, htarget, by rw [hrow]; rfl⟩ (hw.applied v) hinsert⟩
    | none =>
      have hbefore : s.rowAt a = none := by
        rw [← Option.not_isSome_iff_eq_none]
        intro hsome
        have := isSome_rowAt_applied hv hkind hsome
        simp [hrow] at this
      refine ⟨status, outcome_eq_error_iff.1 ?_⟩
      rw [outcome_of_target_ok (hw.applied v) htarget, hrow, ← hbefore]
      rw [← outcome_of_target_ok hw ha]
      exact outcome_eq_error_iff.2 h

theorem refused_appliedAll (hw : s.Suits w) (hinsert : w.kind = .insert)
    (hws : ∀ v ∈ ws, s.Suits v) (hkinds : ∀ v ∈ ws, v.kind ≠ .delete)
    (h : s.apply w = .error status) : ∃ status, (s.appliedAll ws).apply w = .error status := by
  induction ws generalizing s status with
  | nil => exact ⟨status, h⟩
  | cons v ws ih =>
    obtain ⟨hv, hws⟩ := List.forall_mem_cons.1 hws
    obtain ⟨hkind, hkinds⟩ := List.forall_mem_cons.1 hkinds
    obtain ⟨status, hlater⟩ := refused_applied hw hinsert hv hkind h
    exact ih (hw.applied v) (fun u hu => (hws u hu).applied v) hkinds hlater

theorem inserts_refused (hws : ∀ w ∈ ws, s.Suits w) (hinserts : ∀ w ∈ ws, w.kind = .insert) :
    ∀ w ∈ ws, ∃ status, (s.appliedAll ws).apply w = .error status := by
  induction ws generalizing s with
  | nil => simp
  | cons w ws ih =>
    obtain ⟨hw, hws⟩ := List.forall_mem_cons.1 hws
    obtain ⟨hinsert, hinserts⟩ := List.forall_mem_cons.1 hinserts
    have hws' : ∀ v ∈ ws, (s.applied w).Suits v := fun v hv => (hws v hv).applied w
    have hkinds := ne_delete_of_kinds (by decide) hinserts
    rw [appliedAll_cons, List.forall_mem_cons]
    refine ⟨?_, ih hws' hinserts⟩
    cases happly : s.apply w with
    | error status =>
      rw [applied_of_error happly] at hws' ⊢
      exact refused_appliedAll hw hinsert hws' hkinds happly
    | ok t =>
      have hrow := hasRow_of_apply hw (by rw [hinsert]; decide) happly
      exact refused_appliedAll (hw.applied w) hinsert hws' hkinds
        (hrow.apply_insert (hw.applied w) hinsert)

/--
Writes that the store turns down one by one, it turns down one after the other.
-/
theorem rejections_of_refused (h : ∀ w ∈ ws, ∃ status, s.apply w = .error status) :
    (s.rejections ws).map (·.1) = ws ∧ s.appliedAll ws = s := by
  induction ws with
  | nil => exact ⟨rfl, rfl⟩
  | cons w ws ih =>
    obtain ⟨⟨status, hw⟩, hws⟩ := List.forall_mem_cons.1 h
    obtain ⟨hrejections, hstore⟩ := ih hws
    rw [rejections_cons_of_error hw, appliedAll_cons, applied_of_error hw, List.map_cons]
    exact ⟨congrArg (w :: ·) hrejections, hstore⟩

/-!
# Upserts
-/

/--
What writes set in a cell does not depend on what was there before.
-/
theorem exists_last (s : Store) (a : Address) (i : Nat) (ws : List Write) :
    ∃ last : Option Cell, ∀ cell, ws.foldl (s.overwritten a i) cell = (last <|> cell) := by
  induction ws with
  | nil => exact ⟨none, fun cell => by simp⟩
  | cons w ws ih =>
    obtain ⟨last, hlast⟩ := ih
    by_cases htarget : s.target w = .ok a
    . refine ⟨last <|> w.draft.cells[i]?.join, fun cell => ?_⟩
      rw [List.foldl_cons, hlast]
      unfold overwritten
      rw [if_pos htarget]
      cases last <;> simp
    . refine ⟨last, fun cell => ?_⟩
      rw [List.foldl_cons, hlast]
      unfold overwritten
      rw [if_neg htarget]

theorem overwritten_appliedAll (s : Store) (ws : List Write) :
    (s.appliedAll ws).overwritten = s.overwritten := by
  induction ws generalizing s with
  | nil => rfl
  | cons w ws ih => rw [appliedAll_cons, ih, overwritten_applied]

/--
The upserts leave every cell as it is when they are all applied again.
-/
theorem cellAt_again (hs : s.Sound) (hws : ∀ w ∈ ws, s.Suits w)
    (hkinds : ∀ w ∈ ws, w.kind = .upsert) (htaken : s.rejections ws = [])
    (hagain : (s.appliedAll ws).rejections ws = []) (a : Address) (i : Nat) :
    ((s.appliedAll ws).appliedAll ws).cellAt a i = (s.appliedAll ws).cellAt a i := by
  have hws' : ∀ w ∈ ws, (s.appliedAll ws).Suits w := fun w hw => (hws w hw).appliedAll ws
  obtain ⟨last, hlast⟩ := exists_last s a i ws
  calc ((s.appliedAll ws).appliedAll ws).cellAt a i
    _ = (last <|> (s.appliedAll ws).cellAt a i) := by
      rw [cellAt_appliedAll (hs.appliedAll hws) hws' hkinds hagain, overwritten_appliedAll, hlast]
    _ = (last <|> (last <|> s.cellAt a i)) := by
      rw [cellAt_appliedAll hs hws hkinds htaken, hlast]
    _ = (last <|> s.cellAt a i) := by
      cases last <;> rfl
    _ = (s.appliedAll ws).cellAt a i := by
      rw [cellAt_appliedAll hs hws hkinds htaken, hlast]

theorem eq_of_join_getElem? {p q : Cells} (hlength : p.length = q.length)
    (h : ∀ i : Nat, p[i]?.join = q[i]?.join) : p = q := by
  apply List.ext_getElem hlength
  intro i hp hq
  simpa [hp, hq] using h i

theorem rowAt_again (hs : s.Sound) (hws : ∀ w ∈ ws, s.Suits w)
    (hkinds : ∀ w ∈ ws, w.kind = .upsert) (htaken : s.rejections ws = [])
    (hagain : (s.appliedAll ws).rejections ws = []) (a : Address) :
    ((s.appliedAll ws).appliedAll ws).rowAt a = (s.appliedAll ws).rowAt a := by
  have hnot := ne_delete_of_kinds (by decide) hkinds
  have hws' : ∀ w ∈ ws, (s.appliedAll ws).Suits w := fun w hw => (hws w hw).appliedAll ws
  by_cases htarget : ∃ w ∈ ws, (s.appliedAll ws).target w = .ok a
  . obtain ⟨w, hw, ha⟩ := htarget
    obtain ⟨t, hfind, -⟩ := exists_of_target_eq_ok ha
    have hopen := openTable_of_find? hfind
    have hopen' := (openTable_appliedAll (s.appliedAll ws) ws a.1).trans hopen
    obtain ⟨b, hb, hrow⟩ := hasRow_appliedAll hws hnot htaken w hw
    have hba : b = a := Except.ok.inj (hb.symm.trans ha)
    rw [hba] at hrow
    obtain ⟨q, hq⟩ := Option.isSome_iff_exists.1 hrow
    obtain ⟨p, hp⟩ := Option.isSome_iff_exists.1 (isSome_rowAt_appliedAll hws' hnot hrow)
    have hsound := hs.appliedAll hws
    have hlength : p.length = q.length := by
      rw [length_of_rowAt hsound hopen hq]
      exact length_of_rowAt (hsound.appliedAll hws') hopen' hp
    rw [hp, hq]
    congr 1
    apply eq_of_join_getElem? hlength
    intro i
    have hcell := cellAt_again hs hws hkinds htaken hagain a i
    unfold cellAt at hcell
    rwa [hp, hq] at hcell
  . apply rowAt_appliedAll_of_ne hws'
    intro w hw ha
    exact htarget ⟨w, hw, ha⟩

/-!
# Replays
-/

/--
Upserts that were all taken are all taken again, inserts are all turned down, and the store stays as
it was after the first pass.
-/
theorem appliedAll_again (hs : s.Reachable) (hws : ∀ w ∈ ws, s.Admits (.apply w)) :
    ((∀ w ∈ ws, w.kind = .upsert) → s.rejections ws = [] →
      (s.appliedAll ws).rejections ws = [] ∧ (s.appliedAll ws).appliedAll ws = s.appliedAll ws)
      ∧ ((∀ w ∈ ws, w.kind = .insert) →
        ((s.appliedAll ws).rejections ws).map (·.1) = ws
          ∧ (s.appliedAll ws).appliedAll ws = s.appliedAll ws) := by
  have hsuits : ∀ w ∈ ws, s.Suits w := fun w hw => (hws w hw).suits
  constructor
  . intro hkinds htaken
    have hnot := ne_delete_of_kinds (by decide) hkinds
    have hagain := rejections_of_hasRow (fun w hw => (hsuits w hw).appliedAll ws) hkinds
      (hasRow_appliedAll hsuits hnot htaken)
    obtain ⟨hhandles, hid⟩ := handles_appliedAll (s.appliedAll ws) ws
    have hreachable := hs.appliedAll hws
    refine ⟨hagain, hreachable.ext ?_ hhandles hid ?_⟩
    . exact hreachable.appliedAll fun w hw => (hws w hw).appliedAll ws
    . exact rowAt_again hs.sound hsuits hkinds htaken hagain
  . intro hkinds
    exact rejections_of_refused (inserts_refused hsuits hkinds)

def namedPlace (region : String) (id : Int32) (name : String) : Write :=
  placesTable.filledWrite .upsert
    [.set "region" (.string region), .set "id" (.int32 id), .set "name" (.string name)]

/--
A place whose name is written twice, and which is then written without a name.
-/
def placeUpserts : List Write :=
  [namedPlace "a" 1 "first", namedPlace "b" 1 "other", namedPlace "a" 1 "second",
    placeWrite .upsert "a" 1]

def placeInserts : List Write :=
  [placeWrite .insert "a" 1, placeWrite .insert "b" 1, placeWrite .insert "b" 1]

theorem appliedAll_again_places :
    ∃ s : Store, s.Reachable ∧ s.openTable "places" = .ok placesTable
      ∧ ((∀ w ∈ placeUpserts, s.Admits (.apply w)) ∧ (∀ w ∈ placeUpserts, w.kind = .upsert)
        ∧ s.rejections placeUpserts = []
        ∧ (s.appliedAll placeUpserts).rejections placeUpserts = []
        ∧ (s.appliedAll placeUpserts).appliedAll placeUpserts = s.appliedAll placeUpserts
        ∧ (s.appliedAll placeUpserts).rows "places"
          = .ok (places, [[some (.string "a"), some (.int32 1), some (.string "second")],
              [some (.string "b"), some (.int32 1), some (.string "other")]]))
      ∧ (∀ w ∈ placeInserts, s.Admits (.apply w)) ∧ (∀ w ∈ placeInserts, w.kind = .insert)
      ∧ ((s.appliedAll placeInserts).rejections placeInserts).map (·.1) = placeInserts
      ∧ (s.appliedAll placeInserts).appliedAll placeInserts = s.appliedAll placeInserts := by
  have hcalls : Store.empty.AdmitsAll
      [.createTable "places" places, .apply (placeWrite .insert "a" 1)] :=
    ⟨trivial, .inl ⟨placesTable, _, rfl, rfl⟩, trivial⟩
  have hreachable := reachable_runCalls .empty hcalls
  obtain ⟨s, hs⟩ : ∃ s, s = (runCalls Store.call .empty
    [.createTable "places" places, .apply (placeWrite .insert "a" 1)]).2 := ⟨_, rfl⟩
  rw [← hs] at hreachable
  have hopen : s.openTable "places" = .ok placesTable := by rw [hs]; rfl
  have hadmits : ∀ kind edits, s.Admits (.apply (placesTable.filledWrite kind edits)) :=
    fun kind edits => .inl ⟨placesTable, edits, hopen, rfl⟩
  have hupserts : ∀ w ∈ placeUpserts, s.Admits (.apply w) := by
    simp [placeUpserts, namedPlace, placeWrite, hadmits]
  have hinserts : ∀ w ∈ placeInserts, s.Admits (.apply w) := by
    simp [placeInserts, placeWrite, hadmits]
  have hkinds : ∀ w ∈ placeUpserts, w.kind = .upsert := by
    simp [placeUpserts, namedPlace, placeWrite, TableHandle.filledWrite, TableHandle.newWrite]
  have hkinds' : ∀ w ∈ placeInserts, w.kind = .insert := by
    simp [placeInserts, placeWrite, TableHandle.filledWrite, TableHandle.newWrite]
  have htaken : s.rejections placeUpserts = [] := by rw [hs]; rfl
  obtain ⟨hagain, hstore⟩ := (appliedAll_again hreachable hupserts).1 hkinds htaken
  obtain ⟨hrefused, hstore'⟩ := (appliedAll_again hreachable hinserts).2 hkinds'
  have hrows : (s.appliedAll placeUpserts).rows "places"
      = .ok (places, [[some (.string "a"), some (.int32 1), some (.string "second")],
          [some (.string "b"), some (.int32 1), some (.string "other")]]) := by rw [hs]; rfl
  exact ⟨s, hreachable, hopen, ⟨hupserts, hkinds, htaken, hagain, hstore, hrows⟩, hinserts, hkinds',
    hrefused, hstore'⟩

end Store

end KeyedTables
