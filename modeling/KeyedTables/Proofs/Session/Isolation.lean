import KeyedTables.Proofs.Session.Verdict

/-!
This module contains what earlier batches have to do with the next one: nothing. Whatever they left
outstanding, recorded or lost, the next batch runs as it would on a new session, over the store that
has the outstanding writes already.
-/

namespace KeyedTables

namespace Service

/--
A store with a session in which nothing has happened yet.
-/
def anew (store : Store) (settings : SessionSettings) : Service :=
  { start settings {} with store := store }

theorem anew_holds (store : Store) (settings : SessionSettings) :
    (anew store settings).Holds {} { settings := settings } :=
  holds_of_single store _ 0

variable {s : Service} {r : SessionRef} {x : Session} {policy : BatchPolicy} {ws : List Write}

theorem Holds.applyBatch_eq_anew (h : s.Holds r x) (hx : x.Exact) (hopen : x.closed = false)
    (htimeout : policy.timeout? = none) (ws : List Write) :
    (s.applyBatch policy r ws).1
        = ((anew (s.store.appliedAll x.todo) x.settings).applyBatch policy {} ws).1
      ∧ (s.applyBatch policy r ws).2.store
        = ((anew (s.store.appliedAll x.todo) x.settings).applyBatch policy {} ws).2.store := by
  obtain ⟨s', happlies, happly⟩ := h.applyBatch hx hopen htimeout ws
  have hclean := Session.clean_new x.settings
  obtain ⟨t', happlies', happly'⟩ :=
    (anew_holds (s.store.appliedAll x.todo) x.settings).applyBatch_of_clean hclean rfl htimeout ws
  rw [happly, happly']
  constructor
  . rfl
  . rw [happlies.store_eq, happlies'.store_eq]
    rfl

end Service

namespace BatchPolicy

variable {p : BatchPolicy} {s : Store} {ws : List Write}

/--
If there is a write that does not pass among the first rejections of a list of writes, then these
are the rejections before it, which all pass, the rejection itself, and some of those after it.
-/
theorem exists_take_rejections_eq {n : Nat}
    (h : ¬ ∀ q ∈ (s.rejections ws).take n, p.Ignores q.2) :
    ∃ pre w post status, ws = pre ++ w :: post
      ∧ p.Accepts s pre
      ∧ (s.appliedAll pre).apply w = .error status
      ∧ ¬ p.Ignores status
      ∧ (s.rejections ws).take n
        = s.rejections pre
          ++ (w, status) :: ((s.appliedAll pre).rejections post).take
            (n - (s.rejections pre).length - 1) := by
  have hbad : ¬ p.Accepts s ws := by
    rw [accepts_iff]
    intro hall
    exact h fun q hq => hall q (List.mem_of_mem_take hq)
  obtain ⟨pre, w, post, status, hws, hpre, herror, hstatus⟩ := exists_first_of_not_accepts hbad
  refine ⟨pre, w, post, status, hws, hpre, herror, hstatus, ?_⟩
  have hsplit : s.rejections ws
      = s.rejections pre ++ (w, status) :: (s.appliedAll pre).rejections post := by
    rw [hws, Store.rejections_append, Store.rejections_cons_of_error herror,
      Store.applied_of_error herror]
  -- the rejections before it all pass, so one that does not can only come after them
  have hroom : (s.rejections pre).length < n := by
    apply Classical.byContradiction
    intro hfull
    apply h
    rw [hsplit, List.take_append_of_le_length (by omega)]
    intro q hq
    exact accepts_iff.1 hpre q (List.mem_of_mem_take hq)
  rw [hsplit, List.take_append, List.take_of_length_le (by omega)]
  congr 1
  rw [List.take_cons (by omega)]

end BatchPolicy

/--
A failure that is reported is that of a write in the list, and the others that are counted are
failures of writes after it.
-/
theorem Session.exists_of_judge_kept_eq_rejected {p : BatchPolicy} {x : Session} {store : Store}
    {ws : List Write} {status write server : String} {suppressed : Nat}
    (h : p.judge (x.kept store ws) = .error (.rejected status write server suppressed)) :
    ∃ pre w post cause, ws = pre ++ w :: post
      ∧ p.Accepts store pre
      ∧ (store.appliedAll pre).apply w = .error cause
      ∧ ¬ p.Ignores cause
      ∧ status = cause.text ∧ write = w.text ∧ server = x.settings.server
      ∧ suppressed
        = (((store.appliedAll pre).rejections post).take
            (x.settings.errorCapacity - (store.rejections pre).length - 1)).countP
          fun q => ¬ p.Ignores q.2 := by
  unfold kept at h
  have hbad : ¬ ∀ q ∈ (store.rejections ws).take x.settings.errorCapacity, p.Ignores q.2 := by
    rw [← judge_failures_eq_ok_iff (x := x), h]
    simp
  obtain ⟨pre, w, post, cause, hws, hpre, herror, hcause, htake⟩ :=
    BatchPolicy.exists_take_rejections_eq hbad
  refine ⟨pre, w, post, cause, hws, hpre, herror, hcause, ?_⟩
  rw [htake, judge_failures_append_cons (BatchPolicy.accepts_iff.1 hpre) hcause] at h
  simp only [Except.error.injEq, TransferError.rejected.injEq] at h
  obtain ⟨hstatus, hwrite, hserver, hsuppressed⟩ := h
  exact ⟨hstatus.symm, hwrite.symm, hserver.symm, hsuppressed.symm⟩

namespace Service

variable {s : Service} {r : SessionRef} {x : Session} {policy : BatchPolicy}

/--
A batch on a session with any writes outstanding and any failures recorded has the result, and
leaves the store, of the same batch on a new session with the same settings over the store in which
the outstanding writes have been applied. A failure that it reports is that of a write of its own,
and it counts others of its own only.
-/
theorem applyBatch_eq_applyBatch_anew (h : s.Holds r x) (hx : x.Exact) (hopen : x.closed = false)
    (htimeout : policy.timeout? = none) (ws : List Write) :
    (s.applyBatch policy r ws).1
        = ((anew (s.store.appliedAll x.todo) x.settings).applyBatch policy {} ws).1
      ∧ (s.applyBatch policy r ws).2.store
        = ((anew (s.store.appliedAll x.todo) x.settings).applyBatch policy {} ws).2.store
      ∧ ∀ status write server suppressed,
        (s.applyBatch policy r ws).1 = .error (.rejected status write server suppressed) →
          ∃ pre w post cause, ws = pre ++ w :: post
            ∧ policy.Accepts (s.store.appliedAll x.todo) pre
            ∧ ((s.store.appliedAll x.todo).appliedAll pre).apply w = .error cause
            ∧ ¬ policy.Ignores cause
            ∧ status = cause.text ∧ write = w.text ∧ server = x.settings.server
            ∧ suppressed
              = ((((s.store.appliedAll x.todo).appliedAll pre).rejections post).take
                  (x.settings.errorCapacity
                    - ((s.store.appliedAll x.todo).rejections pre).length - 1)).countP
                fun q => ¬ policy.Ignores q.2 := by
  obtain ⟨hresult, hstore⟩ := h.applyBatch_eq_anew hx hopen htimeout ws
  refine ⟨hresult, hstore, ?_⟩
  obtain ⟨s', -, happly⟩ := h.applyBatch hx hopen htimeout ws
  rw [happly]
  intro status write server suppressed hrejected
  exact Session.exists_of_judge_kept_eq_rejected hrejected

/--
A session that holds one write, has another one queued, keeps as many failures as it can and lost
some.
-/
def busySession : Session where
  settings := { errorCapacity := 2 }
  outstanding := 2
  queue := [placeWrite .insert "a" 2]
  flusher := .holding (placeWrite .insert "a" 1)
  errors :=
    { failures := List.replicate 2
        ⟨⟨.notFound, "key not found"⟩, placeWrite .delete "b" 1, "memory-ts-0"⟩
      overflowed := true }

def busyPlaces : Service where
  store := ⟨[⟨placesTable, .empty⟩], 2⟩
  slots := [⟨busySession, 7⟩]

/--
The batch finds the place that the session held when it began, and reports its own second write, not
one of the failures that were recorded before.
-/
theorem applyBatch_busyPlaces_eq_anew :
    (busyPlaces.Holds {} busySession ∧ busySession.Exact ∧ busySession.closed = false
        ∧ lenient.timeout? = none)
      ∧ (busyPlaces.applyBatch lenient {} placeBatch).1
        = ((anew (busyPlaces.store.appliedAll busySession.todo)
            busySession.settings).applyBatch lenient {} placeBatch).1
      ∧ (busyPlaces.applyBatch lenient {} placeBatch).1
        = .error (.rejected "Not found: key not found" "UPDATE places (region=b, id=2)"
            "memory-ts-0" 0) := by
  have hholds : busyPlaces.Holds {} busySession := holds_of_single _ _ 7
  have hexact : busySession.Exact := rfl
  have htimeout : lenient.timeout? = none := rfl
  obtain ⟨hresult, -, -⟩ :=
    applyBatch_eq_applyBatch_anew hholds hexact rfl htimeout placeBatch
  exact ⟨⟨hholds, hexact, rfl, htimeout⟩, hresult, rfl⟩

/--
A write that the flusher has applied, but not yet counted as finished, is in the way of nobody.
-/
example : (Service.applyBatch
    { busyPlaces with slots := [⟨{ busySession with flusher := .finishing }, 7⟩] }
    lenient {} placeBatch).1
      = .error (.rejected "Not found: key not found" "UPDATE places (region=b, id=2)"
          "memory-ts-0" 0) := by
  rfl

end Service

end KeyedTables
