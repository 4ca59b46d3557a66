import KeyedTables.Proofs.Store.Effects

/-!
This module contains that writes for different rows do not get in each other's way. Either of them
has the outcome that it has without the other, and the store is the same in either order. So a list
of writes may be put into any order in which the writes for one row come in the same order as
before.
-/

namespace KeyedTables

namespace Write

/--
The key that a write sets, if it sets all of its cells.
-/
def key? (w : Write) : Option (List Cell) :=
  (w.draft.schema.keyCells w.draft.cells).mapM id

/--
The row that a write is for: the name of its table and its key.
-/
def row? (w : Write) : Option (String × List Cell) :=
  w.key?.map (w.table, ·)

def SameRow (v w : Write) : Prop :=
  ∃ row, v.row? = some row ∧ w.row? = some row

theorem SameRow.symm {v w : Write} : v.SameRow w → w.SameRow v := by
  rintro ⟨row, hv, hw⟩
  exact ⟨row, hw, hv⟩

theorem key?_of_keyOf {w : Write} {key : List Cell}
    (h : w.draft.schema.KeyOf w.draft.cells key) : w.key? = some key := by
  unfold key?
  rw [h.keyCells_eq, List.mapM_map]
  exact (List.mapM_pure (m := Option)).trans (congrArg some (List.map_id key))

end Write

/--
The same writes in another order, but those for one row in the same order.
-/
structure Reorders (ws vs : List Write) : Prop where
  perm : ws.Perm vs
  filter_eq : ∀ row, ws.filter (·.row? = some row) = vs.filter (·.row? = some row)

namespace Reorders

variable {w : Write} {ws vs : List Write}

theorem exists_split (h : Reorders (w :: ws) vs) :
    ∃ pre post, vs = pre ++ w :: post ∧ ∀ v ∈ pre, ¬ v.SameRow w := by
  cases hrow : w.row? with
  | none =>
    obtain ⟨pre, post, hvs⟩ := List.append_of_mem (h.perm.subset List.mem_cons_self)
    refine ⟨pre, post, hvs, ?_⟩
    rintro v - ⟨row, -, hw⟩
    rw [hrow] at hw
    contradiction
  | some row =>
    have hfilter := h.filter_eq row
    rw [List.filter_cons_of_pos (by simp [hrow])] at hfilter
    obtain ⟨pre, post, hvs, hpre, -, -⟩ := List.filter_eq_cons_iff.1 hfilter.symm
    refine ⟨pre, post, hvs, ?_⟩
    rintro v hv ⟨other, hvrow, hw⟩
    rw [hrow, Option.some.injEq] at hw
    rw [← hw] at hvrow
    exact hpre v hv (by simp [hvrow])

theorem tail {pre post : List Write} (h : Reorders (w :: ws) (pre ++ w :: post))
    (hpre : ∀ v ∈ pre, ¬ v.SameRow w) : Reorders ws (pre ++ post) := by
  constructor
  case perm => exact (h.perm.trans List.perm_middle).cons_inv
  case filter_eq =>
    intro row
    have hfilter := h.filter_eq row
    rw [List.filter_append] at hfilter ⊢
    by_cases hrow : w.row? = some row
    . have hnone : pre.filter (·.row? = some row) = [] := by
        rw [List.filter_eq_nil_iff]
        intro v hv hvrow
        exact hpre v hv ⟨row, by simpa using hvrow, hrow⟩
      simpa [hnone, hrow] using hfilter
    . simpa [hrow] using hfilter

/--
Batches that have no row in common may change places.
-/
theorem append_comm {ws vs : List Write} (h : ∀ w ∈ ws, ∀ v ∈ vs, ¬ w.SameRow v) :
    Reorders (ws ++ vs) (vs ++ ws) := by
  constructor
  case perm => exact List.perm_append_comm
  case filter_eq =>
    intro row
    rw [List.filter_append, List.filter_append]
    by_cases hws : ws.filter (·.row? = some row) = []
    . rw [hws, List.nil_append, List.append_nil]
    . have hvs : vs.filter (·.row? = some row) = [] := by
        obtain ⟨w, hw⟩ := List.exists_mem_of_ne_nil _ hws
        obtain ⟨hw, hwrow⟩ := List.mem_filter.1 hw
        rw [List.filter_eq_nil_iff]
        intro v hv hvrow
        exact h w hw v hv ⟨row, by simpa using hwrow, by simpa using hvrow⟩
      rw [hvs, List.nil_append, List.append_nil]

end Reorders

namespace Store

variable {s : Store} {v w : Write} {ws vs pre : List Write} {a : Address}

/-!
# Two writes
-/

theorem row?_of_target (hw : s.Suits w) (h : s.target w = .ok a) :
    w.row? = some (w.table, w.draft.schema.keyOf w.draft.cells) := by
  unfold Write.row?
  rw [Write.key?_of_keyOf (keyOf_of_target hw h).1]
  rfl

/--
Writes that are not for the same row have no address in common.
-/
theorem target_ne_of_not_sameRow (hv : s.Suits v) (hw : s.Suits w) (h : ¬ v.SameRow w)
    (ha : s.target v = .ok a) : s.target w ≠ .ok a := by
  intro hb
  obtain ⟨t, hfind, htable, -⟩ := exists_of_target_eq_ok ha
  obtain ⟨hkey, haddress⟩ := keyOf_of_target hv ha
  obtain ⟨hkey', haddress'⟩ := keyOf_of_target hw hb
  have hsame := haddress.symm.trans haddress'
  rw [Prod.mk.injEq] at hsame
  have hschema : v.draft.schema = w.draft.schema := by
    rw [hv t (by rw [← htable, hfind]), hw t (by rw [← hsame.1, ← htable, hfind])]
  have hfits : w.draft.schema.FitsKey (v.draft.schema.keyOf v.draft.cells) := by
    rw [← hschema]
    exact hkey.fitsKey
  have heq := (Key.encodeKey_inj hfits hkey'.fitsKey).1 hsame.2
  refine h ⟨_, row?_of_target hv ha, ?_⟩
  rw [row?_of_target hw hb, hsame.1, heq]

theorem outcome_applied (hv : s.Suits v) (hw : s.Suits w) (h : ¬ v.SameRow w) :
    (s.applied v).outcome w = s.outcome w := by
  have htarget := target_applied s v w
  cases ha : s.target w with
  | error status =>
    rw [ha] at htarget
    rw [outcome_eq_error_iff.2 (apply_of_target_error htarget)]
    rw [outcome_eq_error_iff.2 (apply_of_target_error ha)]
  | ok a =>
    rw [ha] at htarget
    have hne : s.target v ≠ .ok a := fun hv' => target_ne_of_not_sameRow hv hw h hv' ha
    rw [outcome_of_target_ok (hw.applied v) htarget, outcome_of_target_ok hw ha]
    rw [rowAt_applied_of_ne hv hne]

theorem applied_of_outcome {status : Status} (h : s.outcome w = .error status) :
    s.applied w = s :=
  applied_of_error (outcome_eq_error_iff.1 h)

theorem applied_comm (hv : s.Suits v) (hw : s.Suits w) (h : ¬ v.SameRow w) :
    (s.applied v).applied w = (s.applied w).applied v := by
  have h' : ¬ w.SameRow v := fun hwv => h hwv.symm
  have hwv := outcome_applied hv hw h
  have hvw := outcome_applied hw hv h'
  cases hvo : s.outcome v with
  | error status => rw [applied_of_outcome hvo, applied_of_outcome (hvw.trans hvo)]
  | ok _ =>
    cases hwo : s.outcome w with
    | error status => rw [applied_of_outcome hwo, applied_of_outcome (hwv.trans hwo)]
    | ok _ =>
      obtain ⟨_, hvtaken⟩ := outcome_eq_ok_iff.1 hvo
      obtain ⟨_, hwtaken⟩ := outcome_eq_ok_iff.1 hwo
      obtain ⟨a, p, ha, hp⟩ := exists_change_of_apply hv hvtaken
      obtain ⟨b, q, hb, hq⟩ := exists_change_of_apply hw hwtaken
      have hab : s.target w ≠ .ok a := target_ne_of_not_sameRow hv hw h ha
      have hba : s.target v ≠ .ok b := target_ne_of_not_sameRow hw hv h' hb
      have hne : a ≠ b := by
        intro heq
        rw [heq] at hab
        exact hab hb
      have hq' : w.change ((s.applied v).rowAt b) = .ok q := by
        rw [rowAt_applied_of_ne hv hba, hq]
      have hp' : v.change ((s.applied w).rowAt a) = .ok p := by
        rw [rowAt_applied_of_ne hw hab, hp]
      rw [applied_of_change (hw.applied v) ((target_applied s v w).trans hb) hq']
      rw [applied_of_change (hv.applied w) ((target_applied s w v).trans ha) hp']
      rw [applied_of_change hv ha hp, applied_of_change hw hb hq]
      apply putRow_comm hne

/-!
# Lists of writes
-/

theorem rejections_cons (s : Store) (w : Write) (ws : List Write) :
    s.rejections (w :: ws) = s.rejections [w] ++ (s.applied w).rejections ws := by
  apply rejections_append s [w] ws

theorem rejections_of_outcome_eq {s' : Store} (h : s'.outcome w = s.outcome w) :
    s'.rejections [w] = s.rejections [w] := by
  cases hs : s.apply w with
  | error status =>
    have hs' := outcome_eq_error_iff.1 (h.trans (outcome_eq_error_iff.2 hs))
    rw [rejections_cons_of_error hs, rejections_cons_of_error hs']
    rfl
  | ok t =>
    cases hs' : s'.apply w with
    | error status =>
      have := outcome_eq_error_iff.1 (h.symm.trans (outcome_eq_error_iff.2 hs'))
      rw [hs] at this
      contradiction
    | ok t' =>
      rw [rejections_cons_of_ok hs, rejections_cons_of_ok hs']
      rfl

open scoped List in
/--
A write may be moved in front of writes for other rows.
-/
theorem moved_to_front (hw : s.Suits w) (hpre : ∀ v ∈ pre, s.Suits v ∧ ¬ v.SameRow w)
    (post : List Write) :
    s.appliedAll (pre ++ w :: post) = (s.applied w).appliedAll (pre ++ post)
      ∧ s.rejections (pre ++ w :: post) ~ s.rejections (w :: (pre ++ post)) := by
  induction pre generalizing s with
  | nil => exact ⟨rfl, .refl _⟩
  | cons v pre ih =>
    obtain ⟨⟨hv, hrow⟩, hpre⟩ := List.forall_mem_cons.1 hpre
    have hrow' : ¬ w.SameRow v := fun hwv => hrow hwv.symm
    have hcomm := applied_comm hv hw hrow
    have hvw := rejections_of_outcome_eq (outcome_applied hv hw hrow)
    have hwv := rejections_of_outcome_eq (outcome_applied hw hv hrow')
    obtain ⟨hstore, hrejections⟩ :=
      ih (hw.applied v) fun u hu => ⟨(hpre u hu).1.applied v, (hpre u hu).2⟩
    constructor
    . rw [List.cons_append, appliedAll_cons, hstore, hcomm, List.cons_append, appliedAll_cons]
    . calc s.rejections (v :: (pre ++ w :: post))
        _ = s.rejections [v] ++ (s.applied v).rejections (pre ++ w :: post) :=
          rejections_cons s v _
        _ ~ s.rejections [v] ++ (s.applied v).rejections (w :: (pre ++ post)) :=
          hrejections.append_left _
        _ = s.rejections [v] ++ (s.rejections [w]
              ++ ((s.applied w).applied v).rejections (pre ++ post)) := by
          rw [rejections_cons (s.applied v), hvw, hcomm]
        _ ~ s.rejections [w] ++ (s.rejections [v]
              ++ ((s.applied w).applied v).rejections (pre ++ post)) :=
          List.perm_append_comm_assoc _ _ _
        _ = s.rejections (w :: v :: (pre ++ post)) := by
          rw [rejections_cons s w (v :: _), rejections_cons (s.applied w) v, hwv]

/--
Writes may be reordered as long as those for one row keep their order.
-/
theorem reordered (h : Reorders ws vs) (hws : ∀ w ∈ ws, s.Suits w) :
    s.appliedAll vs = s.appliedAll ws ∧ (s.rejections vs).Perm (s.rejections ws) := by
  induction ws generalizing s vs with
  | nil =>
    have : vs = [] := h.perm.nil_eq.symm
    rw [this]
    exact ⟨rfl, .refl _⟩
  | cons w ws ih =>
    obtain ⟨pre, post, hvs, hpre⟩ := h.exists_split
    rw [hvs] at h ⊢
    have hsuits : ∀ v ∈ pre, s.Suits v ∧ ¬ v.SameRow w := by
      intro v hv
      exact ⟨hws v (h.perm.mem_iff.2 (List.mem_append_left _ hv)), hpre v hv⟩
    obtain ⟨hw, hws⟩ := List.forall_mem_cons.1 hws
    obtain ⟨hstore, hrejections⟩ := ih (h.tail hpre) fun v hv => (hws v hv).applied w
    obtain ⟨hfront, hmoved⟩ := moved_to_front hw hsuits post
    constructor
    . rw [hfront, hstore, appliedAll_cons]
    . apply hmoved.trans
      rw [rejections_cons s w (pre ++ post), rejections_cons s w ws]
      exact hrejections.append_left _

/--
Two writes that are not for the same row have the same outcomes and leave the same store in either
order. So a list of writes leaves the same store, and the same ones of it are turned down for the
same reasons, in every order that keeps the order of the writes for each row.
-/
theorem writes_commute (s : Store) :
    (∀ v w : Write, s.Admits (.apply v) → s.Admits (.apply w) → ¬ v.SameRow w →
      (s.applied v).outcome w = s.outcome w ∧ (s.applied w).outcome v = s.outcome v
        ∧ (s.applied v).applied w = (s.applied w).applied v)
      ∧ ∀ ws vs : List Write, (∀ w ∈ ws, s.Admits (.apply w)) → Reorders ws vs →
        s.appliedAll vs = s.appliedAll ws ∧ (s.rejections vs).Perm (s.rejections ws) := by
  constructor
  . intro v w hv hw hrow
    have hrow' : ¬ w.SameRow v := fun hwv => hrow hwv.symm
    exact ⟨outcome_applied hv.suits hw.suits hrow, outcome_applied hw.suits hv.suits hrow',
      applied_comm hv.suits hw.suits hrow⟩
  . intro ws vs hws h
    exact reordered h fun w hw => (hws w hw).suits

theorem row?_placeWrite (kind : WriteKind) (region : String) (id : Int32) :
    (placeWrite kind region id).row? = some ("places", [.string region, .int32 id]) := by
  rfl

theorem writes_commute_places :
    ∃ s : Store, s.Admits (.apply (placeWrite .delete "a" 1))
      ∧ s.Admits (.apply (placeWrite .insert "b" 1))
      ∧ ¬ (placeWrite .delete "a" 1).SameRow (placeWrite .insert "b" 1)
      ∧ (s.applied (placeWrite .delete "a" 1)).outcome (placeWrite .insert "b" 1) = .ok ()
      ∧ Reorders
          ([placeWrite .insert "a" 1, placeWrite .delete "a" 1]
            ++ [placeWrite .insert "b" 1, placeWrite .insert "b" 1])
          ([placeWrite .insert "b" 1, placeWrite .insert "b" 1]
            ++ [placeWrite .insert "a" 1, placeWrite .delete "a" 1])
      ∧ (s.rejections
          ([placeWrite .insert "b" 1, placeWrite .insert "b" 1]
            ++ [placeWrite .insert "a" 1, placeWrite .delete "a" 1])).Perm
          [(placeWrite .insert "a" 1, ⟨.alreadyPresent, "key already present"⟩),
            (placeWrite .insert "b" 1, ⟨.alreadyPresent, "key already present"⟩)] := by
  obtain ⟨s, hs⟩ : ∃ s, s = (runCalls Store.call .empty
    [.createTable "places" places, .apply (placeWrite .insert "a" 1)]).2 := ⟨_, rfl⟩
  have hopen : s.openTable "places" = .ok placesTable := by rw [hs]; rfl
  have hadmits : ∀ kind region id, s.Admits (.apply (placeWrite kind region id)) := by
    intro kind region id
    exact .inl ⟨placesTable, _, hopen, rfl⟩
  have hrow : ∀ kind kind', ¬ (placeWrite kind "a" 1).SameRow (placeWrite kind' "b" 1) := by
    rintro kind kind' ⟨row, hv, hw⟩
    have hrows := hv.trans hw.symm
    rw [row?_placeWrite] at hrows
    rw [row?_placeWrite] at hrows
    simp at hrows
  have hreorders : Reorders
      ([placeWrite .insert "a" 1, placeWrite .delete "a" 1]
        ++ [placeWrite .insert "b" 1, placeWrite .insert "b" 1])
      ([placeWrite .insert "b" 1, placeWrite .insert "b" 1]
        ++ [placeWrite .insert "a" 1, placeWrite .delete "a" 1]) := by
    apply Reorders.append_comm
    simp [hrow]
  obtain ⟨houtcome, -, -⟩ := (writes_commute s).1 _ _ (hadmits .delete "a" 1)
    (hadmits .insert "b" 1) (hrow .delete .insert)
  obtain ⟨-, hrejections⟩ := (writes_commute s).2 _ _ (by simp [hadmits]) hreorders
  refine ⟨s, hadmits _ _ _, hadmits _ _ _, hrow _ _, ?_, hreorders, ?_⟩
  . rw [houtcome, hs]
    rfl
  . rw [hs] at hrejections ⊢
    exact hrejections

end Store

end KeyedTables
