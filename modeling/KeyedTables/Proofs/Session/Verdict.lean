import KeyedTables.Proofs.Session.Batch
import KeyedTables.Proofs.Store.Calls

/-!
This module contains what the result of a batch says about its writes. A batch reports the first of
its writes that was turned down and that the policy does not ignore, as long as the session keeps
it. If the session has no room for it, the batch succeeds.
-/

namespace KeyedTables

namespace BatchPolicy

/--
A write that was turned down with this status counts as done.
-/
def Ignores (p : BatchPolicy) (status : Status) : Prop :=
  p.ignoreDuplicates = true ∧ status.code = .alreadyPresent

instance (p : BatchPolicy) (status : Status) : Decidable (p.Ignores status) :=
  inferInstanceAs (Decidable (_ ∧ _))

/--
The write was taken, or it was turned down and counts as done.
-/
def Passes (p : BatchPolicy) : Except Status Store → Prop
  | .ok _ => True
  | .error status => p.Ignores status

/--
Each of the writes passes, applied to what those before it left in the store.
-/
def Accepts (p : BatchPolicy) (s : Store) (ws : List Write) : Prop :=
  ∀ pre w post, ws = pre ++ w :: post → p.Passes ((s.appliedAll pre).apply w)

variable {p : BatchPolicy} {s : Store} {ws : List Write}

theorem accepts_nil : p.Accepts s [] := by
  intro pre w post hws
  simp at hws

theorem accepts_cons {w : Write} :
    p.Accepts s (w :: ws) ↔ p.Passes (s.apply w) ∧ p.Accepts (s.applied w) ws := by
  constructor
  . intro h
    constructor
    . exact h [] w ws rfl
    . intro pre v post hws
      exact h (w :: pre) v post (by rw [hws, List.cons_append])
  . rintro ⟨hpass, hrest⟩ pre v post hws
    cases pre with
    | nil =>
      rw [List.nil_append, List.cons.injEq] at hws
      rw [← hws.1]
      exact hpass
    | cons u pre =>
      rw [List.cons_append, List.cons.injEq] at hws
      rw [← hws.1]
      exact hrest pre v post hws.2

theorem accepts_iff : p.Accepts s ws ↔ ∀ q ∈ s.rejections ws, p.Ignores q.2 := by
  induction ws generalizing s with
  | nil => exact iff_of_true accepts_nil (by simp [Store.rejections])
  | cons w ws ih =>
    rw [accepts_cons, ih]
    cases happly : s.apply w with
    | ok s' =>
      rw [Store.rejections_cons_of_ok happly]
      exact and_iff_right trivial
    | error status =>
      rw [Store.rejections_cons_of_error happly, List.forall_mem_cons]
      rfl

theorem accepts_append {ws' : List Write} :
    p.Accepts s (ws ++ ws') ↔ p.Accepts s ws ∧ p.Accepts (s.appliedAll ws) ws' := by
  rw [accepts_iff, accepts_iff, accepts_iff, Store.rejections_append, List.forall_mem_append]

/--
If not all writes pass, then there is a first one that does not.
-/
theorem exists_first_of_not_accepts (h : ¬ p.Accepts s ws) :
    ∃ pre w post status, ws = pre ++ w :: post
      ∧ p.Accepts s pre
      ∧ (s.appliedAll pre).apply w = .error status
      ∧ ¬ p.Ignores status := by
  induction ws generalizing s with
  | nil => exact absurd accepts_nil h
  | cons w ws ih =>
    by_cases hpass : p.Passes (s.apply w)
    . have hrest : ¬ p.Accepts (s.applied w) ws := by
        intro hrest
        exact h (accepts_cons.2 ⟨hpass, hrest⟩)
      obtain ⟨pre, v, post, status, rfl, hpre, herror, hstatus⟩ := ih hrest
      exact ⟨w :: pre, v, post, status, rfl, accepts_cons.2 ⟨hpass, hpre⟩, herror, hstatus⟩
    . cases happly : s.apply w with
      | ok s' =>
        rw [happly] at hpass
        exact absurd trivial hpass
      | error status =>
        rw [happly] at hpass
        exact ⟨[], w, ws, status, rfl, accepts_nil, happly, hpass⟩

theorem reported_eq (p : BatchPolicy) (failures : List FailedWrite) :
    p.reported failures = failures.filter fun f => ¬ p.Ignores f.status := by
  unfold reported Ignores
  simp

theorem judge_eq_ok_iff {failures : List FailedWrite} :
    p.judge failures = .ok () ↔ ∀ f ∈ failures, p.Ignores f.status := by
  unfold judge
  split
  . next hnil =>
    rw [reported_eq] at hnil
    simpa using hnil
  . next f others hcons =>
    have hf : f ∈ p.reported failures := by simp [hcons]
    rw [reported_eq, List.mem_filter, decide_eq_true_iff] at hf
    simp only [reduceCtorEq, false_iff]
    intro h
    exact hf.2 (h f hf.1)

theorem judge_append_cons {pre post : List FailedWrite} {f : FailedWrite}
    (hpre : ∀ g ∈ pre, p.Ignores g.status) (hf : ¬ p.Ignores f.status) :
    p.judge (pre ++ f :: post)
      = .error (.rejected f.status.text f.write.text f.server
          (post.countP fun g => ¬ p.Ignores g.status)) := by
  have hreported : p.reported (pre ++ f :: post) = f :: p.reported post := by
    have hnil : p.reported pre = [] := by
      rw [reported_eq]
      simpa using hpre
    rw [reported_eq] at hnil ⊢
    rw [List.filter_append, hnil, List.nil_append, List.filter_cons_of_pos (by simpa using hf),
      ← reported_eq]
  unfold judge
  rw [hreported, reported_eq, List.countP_eq_length_filter]

theorem judge_cases (p : BatchPolicy) (failures : List FailedWrite) :
    p.judge failures = .ok ()
      ∨ ∃ status write server suppressed,
        p.judge failures = .error (.rejected status write server suppressed) := by
  unfold judge
  split
  . exact .inl rfl
  . exact .inr ⟨_, _, _, _, rfl⟩

end BatchPolicy

namespace Session

variable {x : Session}

theorem judge_failures_eq_ok_iff {p : BatchPolicy} {rejections : List (Write × Status)} :
    p.judge (x.failures rejections) = .ok () ↔ ∀ q ∈ rejections, p.Ignores q.2 := by
  rw [BatchPolicy.judge_eq_ok_iff]
  unfold failures
  rw [List.forall_mem_map]

theorem judge_failures_append_cons {p : BatchPolicy} {pre post : List (Write × Status)}
    {w : Write} {status : Status} (hpre : ∀ q ∈ pre, p.Ignores q.2) (hstatus : ¬ p.Ignores status) :
    p.judge (x.failures (pre ++ (w, status) :: post))
      = .error (.rejected status.text w.text x.settings.server
          (post.countP fun q => ¬ p.Ignores q.2)) := by
  unfold failures
  rw [List.map_append, List.map_cons, BatchPolicy.judge_append_cons _ hstatus, List.countP_map]
  . rfl
  . rw [List.forall_mem_map]
    exact hpre

/--
If the session keeps all failures of a batch, the batch succeeds exactly if all its writes pass.
-/
theorem judge_kept_eq_ok_iff {p : BatchPolicy} {store : Store} {ws : List Write}
    (hroom : (store.rejections ws).length ≤ x.settings.errorCapacity) :
    p.judge (x.kept store ws) = .ok () ↔ p.Accepts store ws := by
  unfold kept
  rw [judge_failures_eq_ok_iff, List.take_of_length_le hroom, BatchPolicy.accepts_iff]

end Session

namespace Service

variable {s : Service} {r : SessionRef} {x : Session} {policy : BatchPolicy} {ws : List Write}

theorem Holds.applyBatch_of_closed (h : s.Holds r x) (hx : x.Clean) (hclosed : x.closed = true)
    (w : Write) (ws : List Write) :
    (s.applyBatch policy r (w :: ws)).1 = .error (.store .sessionClosed) := by
  unfold Service.applyBatch
  rw [h.channel_eq, BatchStage.start_of_clean hx, BatchStage.submit_of_closed hclosed]
  simp only [awaitBatch_ended]

/--
The success of a batch means that all its writes were taken, or turned down with a status that the
policy ignores, exactly if the session keeps a failure that tells otherwise whenever there is one.
-/
theorem applyBatch_ok_accepts_iff (h : s.Holds r x) (hx : x.Clean)
    (htimeout : policy.timeout? = none) (ws : List Write) :
    ((s.applyBatch policy r ws).1 = .ok () → policy.Accepts s.store ws)
      ↔ x.closed = true
        ∨ (∀ q ∈ s.store.rejections ws, policy.Ignores q.2)
        ∨ ∃ q ∈ (s.store.rejections ws).take x.settings.errorCapacity, ¬ policy.Ignores q.2 := by
  rw [BatchPolicy.accepts_iff]
  cases hclosed : x.closed with
  | true =>
    refine iff_of_true ?_ (.inl rfl)
    intro hok
    cases ws with
    | nil => simp [Store.rejections]
    | cons w ws =>
      rw [h.applyBatch_of_closed hx hclosed] at hok
      contradiction
  | false =>
    obtain ⟨s', -, happly⟩ := h.applyBatch_of_clean hx hclosed htimeout ws
    have hok : (s.applyBatch policy r ws).1 = .ok ()
        ↔ ∀ q ∈ (s.store.rejections ws).take x.settings.errorCapacity, policy.Ignores q.2 := by
      rw [happly, Session.kept, Session.judge_failures_eq_ok_iff]
    rw [hok]
    constructor
    . intro himp
      apply Or.inr
      rw [or_iff_not_imp_right]
      intro hnone
      apply himp
      intro q hq
      apply Classical.byContradiction
      intro hbad
      exact hnone ⟨q, hq, hbad⟩
    . rintro (hfalse | hall | ⟨q, hq, hbad⟩) hkept
      . contradiction
      . exact hall
      . exact absurd (hkept q hq) hbad

/--
A service with one place in its table, and a session that keeps as many failures as given.
-/
def onePlace (errorCapacity : Nat) : Service where
  store := Store.applied ⟨[⟨placesTable, .empty⟩], 2⟩ (placeWrite .insert "a" 1)
  slots := [⟨{ settings := { errorCapacity := errorCapacity } }, 0⟩]

theorem onePlace_holds (errorCapacity : Nat) :
    (onePlace errorCapacity).Holds {} { settings := { errorCapacity := errorCapacity } } :=
  holds_of_single _ _ 0

/--
Writes of which the first two are turned down if the place is the only one: the one because the row
is already present, the other because it is not.
-/
def placeBatch : List Write :=
  [placeWrite .insert "a" 1, placeWrite .update "a" 2, placeWrite .upsert "a" 2,
    placeWrite .update "b" 2]

def lenient : BatchPolicy := { ignoreDuplicates := true }

theorem applyBatch_onePlace_ok_accepts :
    ((onePlace 2).Holds {} { settings := { errorCapacity := 2 } }
      ∧ Session.Clean { settings := { errorCapacity := 2 } }
      ∧ lenient.timeout? = none)
      ∧ (((onePlace 2).applyBatch lenient {} placeBatch).1 = .ok () →
          lenient.Accepts (onePlace 2).store placeBatch)
      ∧ ((onePlace 2).applyBatch lenient {} placeBatch).1
        = .error (.rejected "Not found: key not found" "UPDATE places (region=a, id=2)"
            "memory-ts-0" 0) := by
  have hclean := Session.clean_new { errorCapacity := 2 }
  have htimeout : lenient.timeout? = none := rfl
  refine ⟨⟨onePlace_holds 2, hclean, htimeout⟩, ?_, rfl⟩
  apply (applyBatch_ok_accepts_iff (onePlace_holds 2) hclean htimeout placeBatch).2
  refine .inr (.inr ⟨(placeWrite .update "a" 2, ⟨.notFound, "key not found"⟩), ?_, by decide⟩)
  exact .tail _ (.head _)

/--
A batch succeeds although one of its writes was turned down as not found, because the only failure
that the session has room for is one that the policy ignores.
-/
theorem applyBatch_ok_of_full_buffer :
    ((onePlace 1).Holds {} { settings := { errorCapacity := 1 } }
      ∧ Session.Clean { settings := { errorCapacity := 1 } }
      ∧ lenient.timeout? = none)
      ∧ ((onePlace 1).applyBatch lenient {} placeBatch).1 = .ok ()
      ∧ ¬ lenient.Accepts (onePlace 1).store placeBatch := by
  refine ⟨⟨onePlace_holds 1, Session.clean_new _, rfl⟩, rfl, ?_⟩
  intro haccepts
  have hsecond := haccepts [placeWrite .insert "a" 1] (placeWrite .update "a" 2)
    [placeWrite .upsert "a" 2, placeWrite .update "b" 2] rfl
  have hfailed : ((onePlace 1).store.appliedAll [placeWrite .insert "a" 1]).apply
      (placeWrite .update "a" 2) = .error ⟨.notFound, "key not found"⟩ := rfl
  rw [hfailed] at hsecond
  exact absurd hsecond.2 (by decide)

/--
A batch on a clean session with room for all failures applies all its writes. It succeeds if they
were all taken, or turned down with a status that the policy ignores. Otherwise it reports the first
one that was not, and counts the others.
-/
theorem applyBatch_first_rejection (h : s.Holds r x) (hx : x.Clean) (hopen : x.closed = false)
    (htimeout : policy.timeout? = none)
    (hcapacity : (s.store.rejections ws).length ≤ x.settings.errorCapacity) :
    (s.applyBatch policy r ws).2.store = ws.foldl Store.applied s.store
      ∧ ((s.applyBatch policy r ws).1 = .ok () ↔ policy.Accepts s.store ws)
      ∧ (¬ policy.Accepts s.store ws →
          ∃ pre w post status, ws = pre ++ w :: post
            ∧ policy.Accepts s.store pre
            ∧ (s.store.appliedAll pre).apply w = .error status
            ∧ ¬ policy.Ignores status
            ∧ (s.applyBatch policy r ws).1
              = .error (.rejected status.text w.text x.settings.server
                (((s.store.appliedAll pre).rejections post).countP fun q =>
                  ¬ policy.Ignores q.2)))
      ∧ ∃ y, (s.applyBatch policy r ws).2.Holds r y ∧ y.Clean := by
  obtain ⟨s', ⟨hstore, y, hy, hclears⟩, happly⟩ := h.applyBatch_of_clean hx hopen htimeout ws
  rw [happly, Session.kept, List.take_of_length_le hcapacity]
  refine ⟨hstore, ?_, ?_, y, hy, hclears.clean⟩
  . rw [Session.judge_failures_eq_ok_iff, BatchPolicy.accepts_iff]
  . intro hbad
    obtain ⟨pre, w, post, status, hws, hpre, herror, hstatus⟩ :=
      BatchPolicy.exists_first_of_not_accepts hbad
    refine ⟨pre, w, post, status, hws, hpre, herror, hstatus, ?_⟩
    rw [BatchPolicy.accepts_iff] at hpre
    rw [hws, Store.rejections_append, Store.rejections_cons_of_error herror,
      Store.applied_of_error herror]
    exact Session.judge_failures_append_cons hpre hstatus

theorem applyBatch_onePlace_rejected :
    ((onePlace 3).Holds {} { settings := { errorCapacity := 3 } }
      ∧ Session.Clean { settings := { errorCapacity := 3 } }
      ∧ lenient.timeout? = none
      ∧ ((onePlace 3).store.rejections placeBatch).length ≤ 3)
      ∧ ((onePlace 3).applyBatch lenient {} placeBatch).2.store
        = placeBatch.foldl Store.applied (onePlace 3).store
      ∧ ((onePlace 3).applyBatch lenient {} placeBatch).1
        = .error (.rejected "Not found: key not found" "UPDATE places (region=a, id=2)"
            "memory-ts-0" 1)
      ∧ ∃ y, ((onePlace 3).applyBatch lenient {} placeBatch).2.Holds {} y
        ∧ y.Clean := by
  have hcapacity : ((onePlace 3).store.rejections placeBatch).length ≤ 3 := by decide
  have hclean := Session.clean_new { errorCapacity := 3 }
  have htimeout : lenient.timeout? = none := rfl
  obtain ⟨hstore, -, -, hafter⟩ :=
    applyBatch_first_rejection (onePlace_holds 3) hclean rfl htimeout hcapacity
  exact ⟨⟨onePlace_holds 3, hclean, htimeout, hcapacity⟩, hstore, rfl, hafter⟩

end Service

end KeyedTables
