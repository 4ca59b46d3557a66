import KeyedTables.Proofs.Session.Steady
import KeyedTables.Proofs.Store.Calls

/-!
This module contains sessions that callers and a flusher use at the same time. What they do is cut
into small steps, which come in any order. However they come, the count of outstanding writes is
exact, writes reach the store in the order in which they were sent, and nobody who finds nothing
outstanding has missed a write or its failure.
-/

namespace KeyedTables

/--
What happens to a session in one step.
-/
inductive SessionEvent where
  /-- A caller counts a write as outstanding. -/
  | announced (w : Write)
  /-- The session takes an announced write: the caller's request is done. -/
  | sent (w : Write)
  /-- The session does not take an announced write, which no longer counts. -/
  | refused (w : Write)
  /-- The flusher takes the first write of the queue. -/
  | taken (w : Write)
  /-- The flusher has applied a write, and has handed over its failure if there is one. -/
  | performed (w : Write) (failure? : Option FailedWrite)
  /-- The write of the flusher no longer counts as outstanding. -/
  | finished
  /-- A caller sees whether nothing is outstanding. -/
  | looked (drained : Bool)
  /-- A caller takes the failures that are kept. -/
  | collected (buffer : FailureBuffer)

namespace SessionEvent

def sent? : SessionEvent → Option Write
  | .sent w => some w
  | _ => none

def performed? : SessionEvent → Option Write
  | .performed w _ => some w
  | _ => none

/--
The failure that is handed to the buffer.
-/
def handed? : SessionEvent → Option FailedWrite
  | .performed _ failure? => failure?
  | _ => none

def announces : SessionEvent → Bool
  | .announced _ => true
  | _ => false

/--
A write no longer counts as outstanding.
-/
def settles : SessionEvent → Bool
  | .refused _ | .finished => true
  | _ => false

theorem announces_of_settles {e : SessionEvent} (h : e.settles = true) : e.announces = false := by
  cases e <;> trivial

def isOfFlusher : SessionEvent → Bool
  | .taken _ | .performed _ _ | .finished => true
  | _ => false

/--
The buffer of a session with this capacity after an event.
-/
def buffer (capacity : Nat) (b : FailureBuffer) : SessionEvent → FailureBuffer
  | .performed _ (some f) => b.record capacity f
  | .collected _ => {}
  | _ => b

end SessionEvent

/--
A session, the store that its flusher applies writes to, and the writes that callers have announced
and not yet sent.
-/
structure Traffic where
  session : Session
  store : Store
  announced : List Write := []

namespace Traffic

/--
A new session on a store.
-/
def start (settings : SessionSettings) (closed : Bool) (store : Store) : Traffic where
  session := { settings := settings, closed := closed }
  store := store

/--
One step of a caller or of the flusher. Of the writes that are announced any may be sent next.
-/
inductive Step : Traffic → SessionEvent → Traffic → Prop where
  | announce (t : Traffic) (w : Write) :
    Step t (.announced w)
      { t with session := t.session.announce, announced := w :: t.announced }
  | send {t : Traffic} (pre : List Write) {post : List Write} {w : Write} {x : Session}
    (hannounced : t.announced = pre ++ w :: post) (hsend : t.session.send w = (.ok (), x)) :
    Step t (.sent w) { t with session := x, announced := pre ++ post }
  | refuse {t : Traffic} (pre : List Write) {post : List Write} {w : Write} {x : Session}
    {e : StoreError} (hannounced : t.announced = pre ++ w :: post)
    (hsend : t.session.send w = (.error e, x)) :
    Step t (.refused w) { t with session := x, announced := pre ++ post }
  | take {t : Traffic} {w : Write} {ws : List Write} (hidle : t.session.flusher = .idle)
    (hqueue : t.session.queue = w :: ws) :
    Step t (.taken w) { t with session := t.session.take }
  | accept {t : Traffic} {w : Write} {store : Store} (hholds : t.session.flusher = .holding w)
    (happly : t.store.apply w = .ok store) :
    Step t (.performed w none)
      { t with session := (t.session.perform t.store).1, store := (t.session.perform t.store).2 }
  | reject {t : Traffic} {w : Write} {status : Status} (hholds : t.session.flusher = .holding w)
    (happly : t.store.apply w = .error status) :
    Step t (.performed w (some ⟨status, w, t.session.settings.server⟩))
      { t with session := (t.session.perform t.store).1, store := (t.session.perform t.store).2 }
  | finish {t : Traffic} (hfinishing : t.session.flusher = .finishing) :
    Step t .finished { t with session := t.session.finish }
  | look (t : Traffic) : Step t (.looked !t.session.hasPending) t
  | collect (t : Traffic) :
    Step t (.collected t.session.collect.1) { t with session := t.session.collect.2 }

/--
Steps one after the other, with what happens in them.
-/
inductive Run : Traffic → List SessionEvent → Traffic → Prop where
  | nil (t : Traffic) : Run t [] t
  | cons {t u v : Traffic} {e : SessionEvent} {trace : List SessionEvent} (hstep : Step t e u)
    (hrun : Run u trace v) : Run t (e :: trace) v

theorem run_append {t v : Traffic} {before after : List SessionEvent}
    (h : Run t (before ++ after) v) : ∃ u, Run t before u ∧ Run u after v := by
  induction before generalizing t with
  | nil => exact ⟨t, .nil t, h⟩
  | cons e before ih =>
    cases h with
    | cons hstep hrun =>
      obtain ⟨u, hbefore, hafter⟩ := ih hrun
      exact ⟨u, .cons hstep hbefore, hafter⟩

end Traffic

/-!
# Steps of a session
-/

namespace Session

variable {x y : Session} {w : Write} {ws : List Write} {store store' : Store} {status : Status}

theorem length_todo_le (x : Session) : x.todo.length ≤ x.queue.length + x.inHand := by
  unfold todo inHand
  cases x.flusher <;> simp

theorem send_eq_ok (h : x.send w = (.ok (), y)) : y = { x with queue := x.queue ++ [w] } := by
  unfold send at h
  split at h
  . simp at h
  . exact ((Prod.mk.inj h).2).symm

theorem send_eq_error {e : StoreError} (h : x.send w = (.error e, y)) :
    y = { x with outstanding := x.outstanding - 1 } := by
  unfold send at h
  split at h
  . exact ((Prod.mk.inj h).2).symm
  . simp at h

theorem take_of_idle (hidle : x.flusher = .idle) (hqueue : x.queue = w :: ws) :
    x.take = { x with flusher := .holding w, queue := ws } := by
  unfold take
  rw [hidle, hqueue]

theorem perform_of_ok (h : x.flusher = .holding w) (happly : store.apply w = .ok store') :
    x.perform store = ({ x with flusher := .finishing }, store') := by
  unfold perform
  simp [h, happly]

theorem perform_of_error (h : x.flusher = .holding w) (happly : store.apply w = .error status) :
    x.perform store =
      ({ x with
          flusher := .finishing
          errors := x.errors.record x.settings.errorCapacity ⟨status, w, x.settings.server⟩ },
        store) := by
  unfold perform
  simp [h, happly]

end Session

namespace Traffic

open SessionEvent

variable {settings : SessionSettings} {store : Store} {before trace : List SessionEvent}
variable {t u : Traffic} {e : SessionEvent}

/-!
# The count of outstanding writes
-/

/--
The count is that of the writes that are still to be sent, in the queue, or in the hands of the
flusher.
-/
def Exact (t : Traffic) : Prop :=
  t.session.outstanding = t.announced.length + t.session.queue.length + t.session.inHand

theorem Exact.step (h : t.Exact) (hstep : Step t e u) : u.Exact := by
  unfold Exact at h ⊢
  cases hstep with
  | announce w =>
    simp [Session.announce, Session.inHand] at h ⊢
    omega
  | send _ hannounced hsend =>
    rw [hannounced] at h
    simp [Session.send_eq_ok hsend, Session.inHand] at h ⊢
    omega
  | refuse _ hannounced hsend =>
    rw [hannounced] at h
    simp [Session.send_eq_error hsend, Session.inHand] at h ⊢
    omega
  | take hidle hqueue =>
    simp [Session.take_of_idle hidle hqueue, Session.inHand, hidle, hqueue] at h ⊢
    omega
  | accept hholds happly =>
    simp [Session.perform_of_ok hholds happly, Session.inHand, hholds] at h ⊢
    omega
  | reject hholds happly =>
    simp [Session.perform_of_error hholds happly, Session.inHand, hholds] at h ⊢
    omega
  | finish hfinishing =>
    simp [Session.finish_of_finishing hfinishing, Session.inHand, hfinishing] at h ⊢
    omega
  | look => exact h
  | collect => exact h

/--
The count is that of the writes that were announced and did not settle, and each of these is still
to be sent, in the queue, or in the hands of the flusher.
-/
structure Counted (trace : List SessionEvent) (t : Traffic) : Prop where
  count_eq : trace.countP announces = trace.countP settles + t.session.outstanding
  outstanding_eq : t.session.outstanding
    = t.announced.length + t.session.queue.length + t.session.inHand

theorem Counted.outstanding_step (h : Counted trace t) (hstep : Step t e u) :
    u.session.outstanding + e.settles.toNat = t.session.outstanding + e.announces.toNat := by
  have hcount := h.outstanding_eq
  cases hstep with
  | announce w => rfl
  | send _ hannounced hsend => simp [Session.send_eq_ok hsend, settles, announces]
  | refuse _ hannounced hsend =>
    -- the write that is refused is one of those that count
    rw [hannounced, List.length_append, List.length_cons] at hcount
    simp [Session.send_eq_error hsend, settles, announces]
    omega
  | take hidle hqueue => simp [Session.take_of_idle hidle hqueue, settles, announces]
  | accept hholds happly => simp [Session.perform_of_ok hholds happly, settles, announces]
  | reject hholds happly => simp [Session.perform_of_error hholds happly, settles, announces]
  | finish hfinishing =>
    have hhand : t.session.inHand = 1 := by simp [Session.inHand, hfinishing]
    simp [Session.finish_of_finishing hfinishing, settles, announces]
    omega
  | look => rfl
  | collect => rfl

theorem Counted.step (h : Counted trace t) (hstep : Step t e u) : Counted (trace ++ [e]) u := by
  constructor
  case count_eq =>
    have hout := h.outstanding_step hstep
    have hcounts := h.count_eq
    rw [List.countP_append, List.countP_append, List.countP_singleton, List.countP_singleton]
    cases hs : e.settles <;> cases ha : e.announces <;> simp [hs, ha] at hout ⊢ <;> omega
  case outstanding_eq => exact Exact.step h.outstanding_eq hstep

theorem Counted.run (h : Counted before t) (hrun : Run t trace u) :
    Counted (before ++ trace) u := by
  induction hrun generalizing before with
  | nil t => simpa using h
  | cons hstep _ ih => simpa using ih (h.step hstep)

theorem counted_start (settings : SessionSettings) (closed : Bool) (store : Store) :
    Counted [] (start settings closed store) := by
  constructor <;> rfl

/--
As long as writes are outstanding, a caller has one to send or the flusher can go on.
-/
theorem Counted.progress (h : Counted trace t) (hpending : 0 < t.session.outstanding) :
    t.announced ≠ [] ∨ ∃ e u, e.isOfFlusher = true ∧ Step t e u := by
  by_cases hannounced : t.announced = []
  . right
    cases hflusher : t.session.flusher with
    | idle =>
      cases hqueue : t.session.queue with
      | nil =>
        have hcount := h.outstanding_eq
        rw [Session.inHand, hflusher, hqueue, hannounced] at hcount
        rw [hcount] at hpending
        contradiction
      | cons w ws => exact ⟨_, _, rfl, .take hflusher hqueue⟩
    | holding w =>
      cases happly : t.store.apply w with
      | ok store => exact ⟨_, _, rfl, .accept hflusher happly⟩
      | error status => exact ⟨_, _, rfl, .reject hflusher happly⟩
    | finishing => exact ⟨_, _, rfl, .finish hflusher⟩
  . exact .inl hannounced

theorem Counted.todo_eq (h : Counted trace t) (hdrained : t.session.outstanding = 0) :
    t.session.todo = [] := by
  have hcount := h.outstanding_eq
  have hlength := t.session.length_todo_le
  rw [← List.length_eq_zero_iff]
  omega

theorem outstanding_of_looked (hstep : Step t (.looked true) u) : t.session.outstanding = 0 := by
  generalize he : looked true = e at hstep
  cases hstep with
  | look => simpa [Session.hasPending] using he
  | _ => contradiction

/-!
# What a step does
-/

theorem settings_step (hstep : Step t e u) : u.session.settings = t.session.settings := by
  cases hstep with
  | announce w => rfl
  | send _ hannounced hsend => rw [Session.send_eq_ok hsend]
  | refuse _ hannounced hsend => rw [Session.send_eq_error hsend]
  | take hidle hqueue => simp [Session.take_of_idle hidle hqueue]
  | accept hholds happly => simp [Session.perform_of_ok hholds happly]
  | reject hholds happly => simp [Session.perform_of_error hholds happly]
  | finish hfinishing => simp [Session.finish_of_finishing hfinishing]
  | look => rfl
  | collect => rfl

theorem todo_step (hstep : Step t e u) :
    t.session.todo ++ e.sent?.toList = e.performed?.toList ++ u.session.todo := by
  cases hstep with
  | announce w => apply List.append_nil
  | send _ hannounced hsend =>
    rw [Session.send_eq_ok hsend]
    unfold Session.todo
    cases t.session.flusher <;> rfl
  | refuse _ hannounced hsend =>
    rw [Session.send_eq_error hsend]
    apply List.append_nil
  | take hidle hqueue =>
    rw [Session.todo_take]
    apply List.append_nil
  | accept hholds happly =>
    rw [Session.todo_of_holding hholds, Session.perform_of_ok hholds happly]
    apply List.append_nil
  | reject hholds happly =>
    rw [Session.todo_of_holding hholds, Session.perform_of_error hholds happly]
    apply List.append_nil
  | finish hfinishing =>
    rw [Session.finish_of_finishing hfinishing, Session.todo, hfinishing]
    apply List.append_nil
  | look => apply List.append_nil
  | collect => apply List.append_nil

theorem store_step (hstep : Step t e u) : u.store = t.store.appliedAll e.performed?.toList := by
  cases hstep with
  | accept hholds happly =>
    rw [Session.perform_of_ok hholds happly]
    exact (Store.applied_of_ok happly).symm
  | reject hholds happly =>
    rw [Session.perform_of_error hholds happly]
    exact (Store.applied_of_error happly).symm
  | _ => rfl

theorem handed_step (hstep : Step t e u) :
    e.handed?.toList = t.session.failures (t.store.rejections e.performed?.toList) := by
  cases hstep with
  | accept hholds happly =>
    rw [performed?, Option.toList_some, Store.rejections_cons_of_ok happly]
    rfl
  | reject hholds happly =>
    rw [performed?, Option.toList_some, Store.rejections_cons_of_error happly]
    rfl
  | _ => rfl

theorem errors_step (hstep : Step t e u) :
    u.session.errors = buffer t.session.settings.errorCapacity t.session.errors e := by
  cases hstep with
  | announce w => rfl
  | send _ hannounced hsend =>
    rw [Session.send_eq_ok hsend]
    rfl
  | refuse _ hannounced hsend =>
    rw [Session.send_eq_error hsend]
    rfl
  | take hidle hqueue =>
    rw [Session.take_of_idle hidle hqueue]
    rfl
  | accept hholds happly =>
    rw [Session.perform_of_ok hholds happly]
    rfl
  | reject hholds happly =>
    rw [Session.perform_of_error hholds happly]
    rfl
  | finish hfinishing =>
    rw [Session.finish_of_finishing hfinishing]
    rfl
  | look => rfl
  | collect => rfl

/-!
# The order of writes
-/

theorem filterMap_concat (f : α → Option β) (as : List α) (a : α) :
    (as ++ [a]).filterMap f = as.filterMap f ++ (f a).toList := by
  rw [List.filterMap_append, List.filterMap_cons]
  cases f a <;> rfl

/--
What was sent to a session on `store` is what its flusher has applied, and then what it has still to
apply. The failures that were handed to the buffer are those of the writes that were applied.
-/
structure Ordered (settings : SessionSettings) (store : Store) (trace : List SessionEvent)
    (t : Traffic) : Prop where
  settings_eq : t.session.settings = settings
  sent_eq : trace.filterMap sent? = trace.filterMap performed? ++ t.session.todo
  store_eq : t.store = store.appliedAll (trace.filterMap performed?)
  handed_eq : trace.filterMap handed?
    = t.session.failures (store.rejections (trace.filterMap performed?))
  errors_eq : t.session.errors = trace.foldl (buffer settings.errorCapacity) {}

theorem Ordered.step (h : Ordered settings store trace t) (hstep : Step t e u) :
    Ordered settings store (trace ++ [e]) u := by
  constructor
  case settings_eq => rw [settings_step hstep, h.settings_eq]
  case sent_eq =>
    rw [filterMap_concat, filterMap_concat, h.sent_eq, List.append_assoc, todo_step hstep,
      List.append_assoc]
  case store_eq => rw [filterMap_concat, Store.appliedAll_append, ← h.store_eq, store_step hstep]
  case handed_eq =>
    have hfailures : u.session.failures = t.session.failures := by
      unfold Session.failures
      rw [settings_step hstep]
    rw [filterMap_concat, filterMap_concat, Store.rejections_append, ← h.store_eq, hfailures,
      h.handed_eq, handed_step hstep]
    exact List.map_append.symm
  case errors_eq =>
    rw [errors_step hstep, List.foldl_append, ← h.errors_eq, h.settings_eq]
    rfl

theorem Ordered.run (h : Ordered settings store before t) (hrun : Run t trace u) :
    Ordered settings store (before ++ trace) u := by
  induction hrun generalizing before with
  | nil t => simpa using h
  | cons hstep _ ih => simpa using ih (h.step hstep)

theorem ordered_start (settings : SessionSettings) (closed : Bool) (store : Store) :
    Ordered settings store [] (start settings closed store) := by
  constructor <;> rfl

/--
Whatever the order of the steps: the count of outstanding writes is that of the writes that were
announced and have not settled, and it never goes below zero; writes reach the store in the order in
which they were sent, each once; and when a caller finds nothing outstanding, all writes that were
sent have been applied, and their failures have been handed to the buffer. While writes are
outstanding, somebody can go on.
-/
theorem Run.in_order {closed : Bool} (h : Run (start settings closed store) trace t) :
    (trace.countP announces = trace.countP settles + t.session.outstanding
      ∧ (∀ e u, Step t e u → e.settles = true →
          u.session.outstanding + 1 = t.session.outstanding)
      ∧ (0 < t.session.outstanding →
          t.announced ≠ [] ∨ ∃ e u, e.isOfFlusher = true ∧ Step t e u))
    ∧ (trace.filterMap performed? <+: trace.filterMap sent?
      ∧ t.store = store.appliedAll (trace.filterMap performed?)
      ∧ t.session.errors = trace.foldl (buffer settings.errorCapacity) {})
    ∧ ∀ before after, trace = before ++ .looked true :: after →
        before.filterMap performed? = before.filterMap sent?
        ∧ before.filterMap handed? = (start settings closed store).session.failures
            (store.rejections (before.filterMap sent?))
        ∧ ∃ u, Run (start settings closed store) before u ∧ Run u (.looked true :: after) t
            ∧ u.store = store.appliedAll (before.filterMap sent?)
            ∧ u.session.errors = before.foldl (buffer settings.errorCapacity) {} := by
  have hcounted : Counted trace t := (counted_start settings closed store).run h
  have hordered : Ordered settings store trace t := (ordered_start settings closed store).run h
  refine ⟨⟨hcounted.count_eq, ?_, hcounted.progress⟩,
    ⟨⟨_, hordered.sent_eq.symm⟩, hordered.store_eq, hordered.errors_eq⟩, ?_⟩
  . intro e u hstep hsettles
    have hout := hcounted.outstanding_step hstep
    rwa [hsettles, announces_of_settles hsettles] at hout
  . rintro before after rfl
    obtain ⟨u, hbefore, hafter⟩ := run_append h
    have hcounted : Counted before u := (counted_start settings closed store).run hbefore
    have hordered : Ordered settings store before u :=
      (ordered_start settings closed store).run hbefore
    have hdrained : u.session.outstanding = 0 := by
      cases hafter with
      | cons hstep _ => exact outstanding_of_looked hstep
    have hsent : before.filterMap performed? = before.filterMap sent? := by
      rw [hordered.sent_eq, hcounted.todo_eq hdrained, List.append_nil]
    refine ⟨hsent, ?_, u, hbefore, hafter, ?_, hordered.errors_eq⟩
    . rw [hordered.handed_eq, hsent, Session.failures, hordered.settings_eq]
      rfl
    . rw [hordered.store_eq, hsent]

/-!
# Two callers
-/

def emptyPlaces : Store := ⟨[⟨placesTable, .empty⟩], 2⟩

/--
The caller who announced the second write sends it first, and nothing is outstanding only when both
writes are finished.
-/
def crossing : List SessionEvent :=
  [.announced (placeWrite .insert "a" 1),
    .announced (placeWrite .update "a" 2),
    .sent (placeWrite .update "a" 2),
    .taken (placeWrite .update "a" 2),
    .performed (placeWrite .update "a" 2)
      (some ⟨⟨.notFound, "key not found"⟩, placeWrite .update "a" 2, "memory-ts-0"⟩),
    .sent (placeWrite .insert "a" 1),
    .looked false,
    .finished,
    .taken (placeWrite .insert "a" 1),
    .performed (placeWrite .insert "a" 1) none,
    .finished,
    .looked true]

theorem run_crossing_in_order :
    ∃ t, Run (start {} false emptyPlaces) crossing t
      ∧ t.store = emptyPlaces.appliedAll [placeWrite .update "a" 2, placeWrite .insert "a" 1]
      ∧ t.session.errors.failures
        = [⟨⟨.notFound, "key not found"⟩, placeWrite .update "a" 2, "memory-ts-0"⟩]
      ∧ crossing.countP announces = crossing.countP settles + t.session.outstanding
      ∧ t.session.outstanding = 0
      ∧ (crossing.take 11).filterMap performed? = (crossing.take 11).filterMap sent? := by
  obtain ⟨t, hrun⟩ : ∃ t, Run (start {} false emptyPlaces) crossing t :=
    ⟨_, .cons (.announce _ _) <| .cons (.announce _ _) <| .cons (.send [] rfl rfl) <|
      .cons (.take rfl rfl) <| .cons (.reject rfl rfl) <| .cons (.send [] rfl rfl) <|
      .cons (.look _) <| .cons (.finish rfl) <| .cons (.take rfl rfl) <|
      .cons (.accept rfl rfl) <| .cons (.finish rfl) <| .cons (.look _) <| .nil _⟩
  obtain ⟨⟨hcount, -, -⟩, ⟨-, hstore, herrors⟩, hlooked⟩ := hrun.in_order
  obtain ⟨hsent, -⟩ := hlooked (crossing.take 11) [] rfl
  have hcounts : crossing.countP announces = crossing.countP settles := rfl
  refine ⟨t, hrun, hstore, by rw [herrors]; rfl, hcount, by omega, hsent⟩

end Traffic

end KeyedTables
