import KeyedTables.Proofs.Session.Course

/-!
This module contains batches that send their writes one by one, while the flusher may already apply
those that it has. A run of them is matched by a run of batches that send all their writes at once:
such a batch sends at the moment at which the other one starts to, and what the flusher does between
two writes it then does with the others in the queue.
-/

namespace KeyedTables

/--
What a batch is doing.
-/
inductive SendingStage where
  /-- It waits, or it has returned. -/
  | rests (stage : BatchStage)
  /-- It is sending, and these writes are left. -/
  | sends (rest : List Write)

def SendingStage.resting? : SendingStage → Option BatchStage
  | .rests stage => some stage
  | .sends _ => none

/--
A session with batches on it that send one write after the other, and the store that its flusher
applies writes to. A batch that has no stage has not started.
-/
structure Sending (ι : Type) where
  traffic : Traffic
  stage? : ι → Option SendingStage := fun _ => none

inductive SendingEvent (ι : Type) where
  /-- A batch has come to a stage in which it waits, or has returned. -/
  | went (i : ι) (stage : BatchStage)
  /-- A batch starts to send. -/
  | began (i : ι)
  /-- A batch took a step of sending. -/
  | called (i : ι) (e : SessionEvent)
  /-- The flusher took a step. -/
  | flushed (e : SessionEvent)

namespace SendingEvent

variable {ι : Type}

def performed? : SendingEvent ι → Option Write
  | .flushed e => e.performed?
  | _ => none

/--
The batch that has sent all its writes.
-/
def submitted? : SendingEvent ι → Option ι
  | .went i .settling => some i
  | _ => none

def caller? : SendingEvent ι → Option ι
  | .went i _ | .began i | .called i _ => some i
  | .flushed _ => none

end SendingEvent

namespace Sending

variable {ι : Type}

/--
Nobody is sending.
-/
def Quiet (s : Sending ι) : Prop :=
  ∀ i rest, s.stage? i ≠ some (.sends rest)

/--
The session with the batches that are not sending.
-/
def resting (s : Sending ι) : Sharing ι where
  session := s.traffic.session
  store := s.traffic.store
  stage? i := (s.stage? i).bind SendingStage.resting?

/--
The batches that have sent all their writes, in the order in which they were done.
-/
def submitted (trace : List (SendingEvent ι)) : List ι :=
  trace.filterMap SendingEvent.submitted?

def performed (trace : List (SendingEvent ι)) : List Write :=
  trace.filterMap SendingEvent.performed?

theorem not_mem_submitted_concat {trace : List (SendingEvent ι)} {e : SendingEvent ι} {i : ι}
    (htrace : i ∉ submitted trace) (he : e.submitted? ≠ some i) : i ∉ submitted (trace ++ [e]) := by
  unfold submitted
  rw [List.filterMap_append, List.mem_append, not_or]
  exact ⟨htrace, by simpa using he⟩

theorem stage?_resting {s : Sending ι} {i : ι} {stage : BatchStage}
    (h : s.stage? i = some (.rests stage)) : s.resting.stage? i = some stage := by
  simp [resting, h, SendingStage.resting?]

theorem stage?_resting_of_none {s : Sending ι} {i : ι} (h : s.stage? i = none) :
    s.resting.stage? i = none := by
  simp [resting, h]

variable [DecidableEq ι]

/--
The batch `i` comes to a stage and leaves the session and the store as they are given.
-/
def come (s : Sending ι) (i : ι) (stage : SendingStage) (t : Traffic) : Sending ι where
  traffic := t
  stage? := Function.update s.stage? i (some stage)

/--
The writes that the batch `i` has sent.
-/
def sentBy (i : ι) (trace : List (SendingEvent ι)) : List Write :=
  trace.filterMap fun
    | .called j (.sent w) => if j = i then some w else none
    | _ => none

/--
One step of a batch or of the flusher. To send a write takes a batch two steps, in which it counts
the write as outstanding and puts it into the queue, and the flusher may take steps before, between
and after them. Other batches get their turn when a batch waits, but not while it sends.
-/
inductive Step (batches : ι → Batch) (admits : Sharing ι → ι → Prop) :
    Sending ι → SendingEvent ι → Sending ι → Prop where
  | wait {s : Sending ι} {i : ι} (hquiet : s.Quiet) (hnew : s.stage? i = none)
    (hadmits : admits s.resting i)
    (hbusy : (s.traffic.session.hasPending || decide (0 < s.traffic.session.errorCount)) = true) :
    Step batches admits s (.went i (.clearing (batches i).writes))
      (s.come i (.rests (.clearing (batches i).writes)) s.traffic)
  | begin {s : Sending ι} {i : ι} (hquiet : s.Quiet) (hnew : s.stage? i = none)
    (hadmits : admits s.resting i)
    (hfree : (s.traffic.session.hasPending || decide (0 < s.traffic.session.errorCount)) = false) :
    Step batches admits s (.began i) (s.come i (.sends (batches i).writes) s.traffic)
  | clear {s : Sending ι} {i : ι} {ws : List Write} (hquiet : s.Quiet)
    (hstage : s.stage? i = some (.rests (.clearing ws)))
    (hdrained : s.traffic.session.hasPending = false) :
    Step batches admits s (.began i)
      (s.come i (.sends ws) { s.traffic with session := s.traffic.session.collect.2 })
  | announce {s : Sending ι} {i : ι} {w : Write} {rest : List Write} {t : Traffic}
    (hstage : s.stage? i = some (.sends (w :: rest))) (hnone : s.traffic.announced = [])
    (hstep : Traffic.Step s.traffic (.announced w) t) :
    Step batches admits s (.called i (.announced w)) (s.come i (.sends (w :: rest)) t)
  | send {s : Sending ι} {i : ι} {w : Write} {rest : List Write} {t : Traffic}
    (hstage : s.stage? i = some (.sends (w :: rest)))
    (hstep : Traffic.Step s.traffic (.sent w) t) :
    Step batches admits s (.called i (.sent w)) (s.come i (.sends rest) t)
  | refuse {s : Sending ι} {i : ι} {w : Write} {rest : List Write} {t : Traffic}
    (hstage : s.stage? i = some (.sends (w :: rest)))
    (hstep : Traffic.Step s.traffic (.refused w) t) :
    Step batches admits s (.called i (.refused w))
      (s.come i (.rests (.ended (.error (.store .sessionClosed)))) t)
  | settle {s : Sending ι} {i : ι} (hstage : s.stage? i = some (.sends [])) :
    Step batches admits s (.went i .settling) (s.come i (.rests .settling) s.traffic)
  | judge {s : Sending ι} {i : ι} {result : Except TransferError Unit} {c : Channel}
    (hquiet : s.Quiet) (hstage : s.stage? i = some (.rests .settling))
    (hdrained : s.traffic.session.hasPending = false)
    (hresume : BatchStage.settling.resume (batches i).policy ⟨s.traffic.session, {}⟩
      = (.ended result, c)) :
    Step batches admits s (.went i (.ended result))
      (s.come i (.rests (.ended result)) { s.traffic with session := c.session })
  | expire {s : Sending ι} {i : ι} {stage : BatchStage} {timeout : Duration} (hquiet : s.Quiet)
    (hstage : s.stage? i = some (.rests stage)) (hwaits : stage.result? = none)
    (htimeout : (batches i).policy.timeout? = some timeout) :
    Step batches admits s (.went i (.expired timeout))
      (s.come i (.rests (.expired timeout)) s.traffic)
  | flush {s : Sending ι} {e : SessionEvent} {t : Traffic} (hstep : Traffic.Step s.traffic e t)
    (hflusher : e.isOfFlusher = true) :
    Step batches admits s (.flushed e) { s with traffic := t }

/--
Steps one after the other, with what happens in them.
-/
inductive Run (batches : ι → Batch) (admits : Sharing ι → ι → Prop) :
    Sending ι → List (SendingEvent ι) → Sending ι → Prop where
  | nil (s : Sending ι) : Run batches admits s [] s
  | cons {s t u : Sending ι} {e : SendingEvent ι} {trace : List (SendingEvent ι)}
    (hstep : Step batches admits s e t) (hrun : Run batches admits t trace u) :
    Run batches admits s (e :: trace) u

variable {batches : ι → Batch} {admits : Sharing ι → ι → Prop} {s t u : Sending ι}
variable {e : SendingEvent ι} {trace : List (SendingEvent ι)} {i j : ι} {x y : Session}

@[simp]
theorem traffic_come {stage : SendingStage} {t : Traffic} : (s.come i stage t).traffic = t := by
  rfl

@[simp]
theorem stage?_come_self {stage : SendingStage} {t : Traffic} :
    (s.come i stage t).stage? i = some stage := by
  simp [come]

theorem stage?_come_of_ne {stage : SendingStage} {t : Traffic} (h : j ≠ i) :
    (s.come i stage t).stage? j = s.stage? j := by
  simp [come, h]

theorem resting_come {stage : BatchStage} {t : Traffic} (hstore : t.store = s.traffic.store) :
    (s.come i (.rests stage) t).resting = s.resting.advance i stage t.session := by
  unfold resting Sharing.advance come
  simp only [hstore, Sharing.mk.injEq, true_and]
  funext j
  by_cases hj : j = i
  . subst hj
    simp [SendingStage.resting?]
  . simp [hj]

/--
Where a batch stands whose stage is given does not matter.
-/
theorem advance_resting_come {stage : BatchStage} {t : Traffic} (stage' : SendingStage)
    (hstore : t.store = s.traffic.store) (x : Session) :
    (s.come i stage' t).resting.advance i stage x = s.resting.advance i stage x := by
  unfold resting Sharing.advance come
  simp only [hstore, Sharing.mk.injEq, true_and]
  funext j
  by_cases hj : j = i
  . simp [hj]
  . simp [hj]

theorem quiet_come {stage : BatchStage} {t : Traffic}
    (h : ∀ j rest, s.stage? j = some (.sends rest) → j = i) : (s.come i (.rests stage) t).Quiet := by
  intro j rest hj
  by_cases hji : j = i
  . subst hji
    simp at hj
  . rw [stage?_come_of_ne hji] at hj
    exact hji (h j rest hj)

theorem sender_come {stage : SendingStage} {t : Traffic} {rest : List Write}
    (hothers : ∀ j ws, s.stage? j = some (.sends ws) → j = i)
    (hj : (s.come i stage t).stage? j = some (.sends rest)) : j = i := by
  by_cases hji : j = i
  . exact hji
  . rw [stage?_come_of_ne hji] at hj
    exact hothers j rest hj

end Sending

/-!
# Sending at once
-/

namespace Session

variable {x y : Session} {w : Write}

theorem loaded_of_send (h : x.send w = (.ok (), y)) (ws : List Write) :
    y.loaded ws = x.loaded (w :: ws) := by
  rw [send_eq_ok h]
  simp [loaded, inHand, Nat.add_assoc, Nat.add_comm 1]

theorem loaded_of_refuse {e : StoreError} (h : x.send w = (.error e, y)) (ws : List Write) :
    y.loaded ws = x.loaded ws := by
  rw [send_eq_error h]
  rfl

theorem open_of_send (h : x.send w = (.ok (), y)) : x.closed = false := by
  unfold send at h
  split at h
  . simp at h
  . next hopen => simpa using hopen

theorem closed_send (h : x.send w = (.ok (), y)) : y.closed = x.closed := by
  rw [send_eq_ok h]

theorem closed_of_refuse {e : StoreError} (h : x.send w = (.error e, y)) : x.closed = true := by
  unfold send at h
  split at h
  . next hclosed => exact hclosed
  . simp at h

theorem todo_loaded (x : Session) (ws : List Write) : (x.loaded ws).todo = x.todo ++ ws := by
  unfold todo loaded
  cases x.flusher <;> rfl

theorem Exact.loaded_nil (hx : x.Exact) : x.loaded [] = x := by
  rw [hx.loaded_eq]
  simp [enqueue]

end Session

namespace Sending

open Sharing
open SendingEvent (submitted? caller?)

variable {ι : Type} [DecidableEq ι] {batches : ι → Batch} {admits : Sharing ι → ι → Prop}
variable {s t u : Sending ι} {c : Sharing ι} {e : SendingEvent ι} {trace : List (SendingEvent ι)}
variable {pending : List ι} {i j : ι} {x y : Session}

/--
The batch `i`, and no other one, is sending. These of its writes are left, and at most the first of
them is counted as outstanding already.
-/
structure Sends (batches : ι → Batch) (s : Sending ι) (i : ι) (rest : List Write) : Prop where
  stage?_eq : s.stage? i = some (.sends rest)
  others : ∀ j ws, s.stage? j = some (.sends ws) → j = i
  next : s.traffic.announced = [] ∨ s.traffic.announced = rest.take 1
  left : rest <:+ (batches i).writes

/--
The shared session `c` on which a batch that starts to send sends everything at once. If the session
is closed and there is something to send, it returns at once. A batch is pending that has sent
everything there, but has still to come to that here.
-/
inductive Shadows (batches : ι → Batch) (s : Sending ι) : Sharing ι → List ι → Prop where
  | quiet (hquiet : s.Quiet) (hnone : s.traffic.announced = []) : Shadows batches s s.resting []
  | sending {i : ι} {rest : List Write} (hsends : Sends batches s i rest)
    (hopen : s.traffic.session.closed = true → rest = []) :
    Shadows batches s (s.resting.advance i .settling (s.traffic.session.loaded rest)) [i]
  | refusing {i : ι} {rest : List Write} (hsends : Sends batches s i rest)
    (hclosed : s.traffic.session.closed = true) (hall : rest = (batches i).writes)
    (hne : rest ≠ []) :
    Shadows batches s
      (s.resting.advance i (.ended (.error (.store .sessionClosed))) (s.traffic.session.loaded [])) []

theorem Sends.come {rest rest' : List Write} {t : Traffic} (h : Sends batches s i rest)
    (hrest : rest' <:+ rest) (hnext : t.announced = [] ∨ t.announced = rest'.take 1) :
    Sends batches (s.come i (.sends rest') t) i rest' := by
  constructor
  case stage?_eq => exact stage?_come_self
  case others => exact fun j ws hj => sender_come h.others hj
  case next => exact hnext
  case left => exact hrest.trans h.left

theorem Shadows.of_quiet (h : Shadows batches s c pending) (hquiet : s.Quiet) :
    c = s.resting ∧ pending = [] ∧ s.traffic.announced = [] := by
  cases h with
  | quiet _ hnone => exact ⟨rfl, rfl, hnone⟩
  | sending hsends => exact absurd hsends.stage?_eq (hquiet _ _)
  | refusing hsends => exact absurd hsends.stage?_eq (hquiet _ _)

theorem Shadows.of_sends {rest : List Write} (h : Shadows batches s c pending)
    (hstage : s.stage? i = some (.sends rest)) :
    Sends batches s i rest
      ∧ ((s.traffic.session.closed = true → rest = [])
          ∧ c = s.resting.advance i .settling (s.traffic.session.loaded rest) ∧ pending = [i]
        ∨ s.traffic.session.closed = true ∧ rest = (batches i).writes ∧ rest ≠ []
          ∧ c = s.resting.advance i (.ended (.error (.store .sessionClosed)))
            (s.traffic.session.loaded [])
          ∧ pending = []) := by
  cases h with
  | quiet hquiet => exact absurd hstage (hquiet _ _)
  | sending hsends hopen =>
    cases hsends.others i rest hstage
    rw [hsends.stage?_eq, Option.some.injEq, SendingStage.sends.injEq] at hstage
    subst hstage
    exact ⟨hsends, .inl ⟨hopen, rfl, rfl⟩⟩
  | refusing hsends hclosed hall hne =>
    cases hsends.others i rest hstage
    rw [hsends.stage?_eq, Option.some.injEq, SendingStage.sends.injEq] at hstage
    subst hstage
    exact ⟨hsends, .inr ⟨hclosed, hall, hne, rfl, rfl⟩⟩

/-!
## One step
-/

/--
The shared session takes steps that come to what a step here comes to.
-/
def Matched (batches : ι → Batch) (admits : Sharing ι → ι → Prop) (c : Sharing ι)
    (pending : List ι) (e : SendingEvent ι) (t : Sending ι) : Prop :=
  ∃ es d pending', Sharing.Run batches admits c es d ∧ Shadows batches t d pending'
    ∧ es.filterMap SharingEvent.performed? = e.performed?.toList
    ∧ pending ++ senders es = e.submitted?.toList ++ pending'

theorem matched_of_none (pending' : List ι) (hshadows : Shadows batches t c pending')
    (hperformed : e.performed? = none) (hpending : pending = e.submitted?.toList ++ pending') :
    Matched batches admits c pending e t := by
  refine ⟨[], c, pending', .nil c, hshadows, ?_, ?_⟩
  . rw [hperformed]
    rfl
  . rw [← hpending]
    apply List.append_nil

theorem matched_of_step {d : Sharing ι} {e' : SharingEvent ι} (pending' : List ι)
    (hstep : Sharing.Step batches admits c e' d) (hshadows : Shadows batches t d pending')
    (hperformed : e'.performed? = e.performed?)
    (hpending : pending ++ senders [e'] = e.submitted?.toList ++ pending') :
    Matched batches admits c pending e t := by
  refine ⟨[e'], d, pending', .cons hstep (.nil d), hshadows, ?_, hpending⟩
  rw [← hperformed]
  cases h : e'.performed? <;> simp [h]

/--
A flusher that takes a step here takes it on the shared session as well, where there may be more
writes in the queue.
-/
theorem Shadows.flush {event : SessionEvent} {t : Traffic} (h : Shadows batches s c pending)
    (hstep : Traffic.Step s.traffic event t) (hflusher : event.isOfFlusher = true) :
    Matched batches admits c pending (.flushed event) { s with traffic := t } := by
  have hannounced := Traffic.announced_flush hstep hflusher
  have hclosed := Traffic.closed_flush hstep hflusher
  have hsends : ∀ {i rest}, Sends batches s i rest →
      Sends batches { s with traffic := t } i rest := by
    rintro i rest ⟨hstage, hothers, hnext, hleft⟩
    rw [← hannounced] at hnext
    exact ⟨hstage, hothers, hnext, hleft⟩
  cases h with
  | quiet hquiet hnone =>
    have hflush : Sharing.Step batches admits s.resting (.flushed event)
        { s.resting with session := t.session, store := t.store } := by
      apply Sharing.Step.flush _ hflusher
      obtain ⟨⟨session, store, announced⟩, stage?⟩ := s
      subst hnone
      obtain ⟨session', store', announced'⟩ := t
      subst hannounced
      exact hstep
    exact matched_of_step _ hflush (.quiet hquiet (by rw [hannounced, hnone])) rfl rfl
  | @sending i rest hs hopen =>
    rw [← hclosed] at hopen
    exact matched_of_step _ (.flush (Traffic.step_loaded hstep hflusher rest) hflusher)
      (.sending (hsends hs) hopen) rfl rfl
  | refusing hs hrefuses hall hne =>
    rw [← hclosed] at hrefuses
    exact matched_of_step _ (.flush (Traffic.step_loaded hstep hflusher []) hflusher)
      (.refusing (hsends hs) hrefuses hall hne) rfl rfl

/--
A batch that comes to a stage while nobody sends comes to the same stage on the shared session.
-/
theorem Shadows.rest {stage : BatchStage} {t : Traffic} {ws : List Write}
    (h : Shadows batches s c pending) (hquiet : s.Quiet) (hstore : t.store = s.traffic.store)
    (hannounced : t.announced = s.traffic.announced)
    (hunsent : (SendingEvent.went i stage).submitted? = none)
    (hstep : Sharing.Step batches admits s.resting (.went i stage ws)
      (s.resting.advance i stage t.session)) :
    Matched batches admits c pending (.went i stage) (s.come i (.rests stage) t) := by
  obtain ⟨rfl, rfl, hnone⟩ := h.of_quiet hquiet
  refine matched_of_step [] hstep ?_ rfl ?_
  . rw [← resting_come hstore]
    refine .quiet (quiet_come fun j rest hj => absurd hj (hquiet j rest)) ?_
    rw [traffic_come, hannounced, hnone]
  . rw [hunsent]
    cases stage <;> first | rfl | contradiction

/--
When a batch starts to send, the other one sends everything at once or, if the session is closed,
returns without having sent anything.
-/
theorem Shadows.begin {y : Session} (h : Shadows batches s c pending) (hquiet : s.Quiet)
    (hy : y.Exact)
    (hstep : ∀ stage z, BatchStage.submit (batches i).writes ⟨y, {}⟩ = (stage, ⟨z, {}⟩) →
      ∃ ws, Sharing.Step batches admits s.resting (.went i stage ws) (s.resting.advance i stage z)) :
    Matched batches admits c pending (.began i)
      (s.come i (.sends (batches i).writes) { s.traffic with session := y }) := by
  obtain ⟨rfl, rfl, hnone⟩ := h.of_quiet hquiet
  obtain ⟨t, ht⟩ : ∃ t : Traffic, t = { s.traffic with session := y } := ⟨_, rfl⟩
  have hstore : t.store = s.traffic.store := by rw [ht]
  have hsession : t.session = y := by rw [ht]
  have hsends : Sends batches (s.come i (.sends (batches i).writes) t) i (batches i).writes := by
    constructor
    case stage?_eq => exact stage?_come_self
    case others => exact fun j ws hj => sender_come (fun k rest hk => absurd hk (hquiet k rest)) hj
    case next => exact .inl (by simp [ht, hnone])
    case left => exact List.suffix_rfl
  rw [← ht]
  rcases BatchStage.submit_cases y (batches i).writes
    with ⟨hopen, hsent⟩ | ⟨hclosed, hne, hrefused⟩
  . obtain ⟨ws, hstep⟩ := hstep _ _ hsent
    refine matched_of_step [i] hstep ?_ rfl rfl
    rw [← hy.loaded_eq, ← hsession, ← advance_resting_come (.sends _) hstore]
    exact .sending hsends (by rwa [← hsession] at hopen)
  . obtain ⟨ws, hstep⟩ := hstep _ _ hrefused
    refine matched_of_step [] hstep ?_ rfl rfl
    rw [← hy.loaded_nil, ← hsession, ← advance_resting_come (.sends _) hstore]
    exact .refusing hsends (by rwa [← hsession] at hclosed) rfl hne

theorem Shadows.announce {w : Write} {rest : List Write} {t : Traffic}
    (h : Shadows batches s c pending) (hstage : s.stage? i = some (.sends (w :: rest)))
    (hnone : s.traffic.announced = []) (hstep : Traffic.Step s.traffic (.announced w) t) :
    Matched batches admits c pending (.called i (.announced w))
      (s.come i (.sends (w :: rest)) t) := by
  obtain ⟨hsends, hcases⟩ := h.of_sends hstage
  have hloaded : ∀ ws, t.session.loaded ws = s.traffic.session.loaded ws := by
    intro ws
    cases hstep
    rfl
  obtain ⟨hstore, hclosed, hannounced⟩ : t.store = s.traffic.store
      ∧ t.session.closed = s.traffic.session.closed ∧ t.announced = [w] := by
    cases hstep
    exact ⟨rfl, rfl, by rw [hnone]⟩
  have hsends' := hsends.come (List.suffix_refl _) (.inr hannounced)
  refine matched_of_none _ ?_ rfl rfl
  rw [← hclosed] at hcases
  rcases hcases with ⟨hopen, rfl, rfl⟩ | ⟨hclosed, hall, hne, rfl, rfl⟩
  . rw [← hloaded, ← advance_resting_come (.sends (w :: rest)) hstore]
    exact .sending hsends' hopen
  . rw [← hloaded, ← advance_resting_come (.sends (w :: rest)) hstore]
    exact .refusing hsends' hclosed hall hne

theorem Shadows.send {w : Write} {rest : List Write} {t : Traffic}
    (h : Shadows batches s c pending) (hstage : s.stage? i = some (.sends (w :: rest)))
    (hstep : Traffic.Step s.traffic (.sent w) t) :
    Matched batches admits c pending (.called i (.sent w)) (s.come i (.sends rest) t) := by
  obtain ⟨hsends, hcases⟩ := h.of_sends hstage
  have hnext := hsends.next
  cases hstep with
  | @send pre post w y hannounced hsend =>
    have hopen := Session.open_of_send hsend
    have hnone : pre ++ post = [] := by
      rw [hannounced] at hnext
      simpa [List.append_eq_cons_iff] using hnext
    rcases hcases with ⟨-, rfl, rfl⟩ | ⟨hclosed, -⟩
    . refine matched_of_none _ ?_ rfl rfl
      have hsends' := hsends.come (t := { s.traffic with session := y, announced := pre ++ post })
        (List.suffix_cons w rest) (.inl hnone)
      rw [← Session.loaded_of_send hsend, ← advance_resting_come
        (t := { s.traffic with session := y, announced := pre ++ post }) (.sends rest) rfl]
      refine .sending hsends' ?_
      rw [traffic_come, Session.closed_send hsend, hopen]
      simp
    . rw [hopen] at hclosed
      contradiction

/--
A batch that is refused has returned on the shared session when it started to send.
-/
theorem Shadows.refuse {w : Write} {rest : List Write} {t : Traffic}
    (h : Shadows batches s c pending) (hstage : s.stage? i = some (.sends (w :: rest)))
    (hexact : s.traffic.Exact) (hstep : Traffic.Step s.traffic (.refused w) t) :
    Matched batches admits c pending (.called i (.refused w))
      (s.come i (.rests (.ended (.error (.store .sessionClosed)))) t) := by
  obtain ⟨hsends, hcases⟩ := h.of_sends hstage
  have hnext := hsends.next
  have hexact' := hexact.step hstep
  have hstore := Traffic.store_step hstep
  cases hstep with
  | @refuse pre post w y error hannounced hsend =>
    have hnone : pre ++ post = [] := by
      rw [hannounced] at hnext
      simpa [List.append_eq_cons_iff] using hnext
    have hy : y.Exact := (Traffic.exact_iff hnone).1 hexact'
    rcases hcases with ⟨hopen, -⟩ | ⟨-, -, -, rfl, rfl⟩
    . exact absurd (hopen (Session.closed_of_refuse hsend)) (by simp)
    . refine matched_of_none _ ?_ rfl rfl
      rw [← Session.loaded_of_refuse hsend, hy.loaded_nil, ← resting_come
        (t := { s.traffic with session := y, announced := pre ++ post }) rfl]
      exact .quiet (quiet_come hsends.others) hnone

/--
A batch that has sent its last write has come to where it is on the shared session.
-/
theorem Shadows.settle (h : Shadows batches s c pending) (hstage : s.stage? i = some (.sends []))
    (hexact : s.traffic.Exact) :
    Matched batches admits c pending (.went i .settling)
      (s.come i (.rests .settling) s.traffic) := by
  obtain ⟨hsends, hcases⟩ := h.of_sends hstage
  have hnone : s.traffic.announced = [] := by simpa using hsends.next
  have hx : s.traffic.session.Exact := (Traffic.exact_iff hnone).1 hexact
  rcases hcases with ⟨hopen, rfl, rfl⟩ | ⟨-, -, hne, -⟩
  . refine matched_of_none [] ?_ rfl rfl
    rw [hx.loaded_nil, ← resting_come (t := s.traffic) rfl]
    exact .quiet (quiet_come hsends.others) hnone
  . exact absurd rfl hne

theorem Shadows.step (h : Shadows batches s c pending) (hsound : Sound batches x c)
    (hexact : s.traffic.Exact) (hstep : Step batches admits s e t) :
    Matched batches admits c pending e t := by
  -- on a session on which nobody sends, the shared session is the same
  have hresting : s.Quiet → s.traffic.session.Exact ∧ Sound batches x s.resting := by
    intro hquiet
    obtain ⟨rfl, -, hnone⟩ := h.of_quiet hquiet
    exact ⟨(Traffic.exact_iff hnone).1 hexact, hsound⟩
  cases hstep with
  | @wait i hquiet hnew hadmits hbusy =>
    apply h.rest hquiet rfl rfl rfl
    apply Sharing.Step.start (c := ⟨s.traffic.session, {}⟩) (stage?_resting_of_none hnew) hadmits
    unfold BatchStage.start
    exact if_pos hbusy
  | @begin i hquiet hnew hadmits hfree =>
    apply h.begin hquiet (hresting hquiet).1
    intro stage z hsubmit
    refine ⟨_, .start (c := ⟨z, {}⟩) (stage?_resting_of_none hnew) hadmits ?_⟩
    rw [← hsubmit]
    unfold BatchStage.start
    exact if_neg (Bool.not_eq_true _ ▸ hfree)
  | @clear i ws hquiet hstage hdrained =>
    obtain ⟨hx, hsound⟩ := hresting hquiet
    have hws := hsound.clearing_eq i ws (stage?_resting hstage)
    subst hws
    have hcollected : s.traffic.session.collect.2.Exact := hx
    apply h.begin hquiet hcollected
    intro stage z hsubmit
    exact ⟨_, .resume (c := ⟨z, {}⟩) (stage?_resting hstage) rfl hdrained hsubmit⟩
  | announce hstage hnone hstep => exact h.announce hstage hnone hstep
  | send hstage hstep => exact h.send hstage hstep
  | refuse hstage hstep => exact h.refuse hstage hexact hstep
  | settle hstage => exact h.settle hstage hexact
  | judge hquiet hstage hdrained hresume =>
    exact h.rest hquiet rfl rfl rfl (.resume (stage?_resting hstage) rfl hdrained hresume)
  | expire hquiet hstage hwaits htimeout =>
    exact h.rest hquiet rfl rfl rfl (.expire (stage?_resting hstage) hwaits htimeout)
  | flush hstep hflusher => exact h.flush hstep hflusher

theorem Step.traffic_exact (hexact : s.traffic.Exact) (hstep : Step batches admits s e t) :
    t.traffic.Exact := by
  cases hstep with
  | announce hstage hnone hstep => exact hexact.step hstep
  | send hstage hstep => exact hexact.step hstep
  | refuse hstage hstep => exact hexact.step hstep
  | flush hstep hflusher => exact hexact.step hstep
  | clear hquiet hstage hdrained => exact hexact.step (.collect s.traffic)
  | @judge i result c hquiet hstage hdrained hresume =>
    have hsession : c.session = s.traffic.session ∨ c.session = s.traffic.session.collect.2 := by
      unfold BatchStage.resume at hresume
      dsimp only at hresume
      split at hresume
      . exact .inr (by rw [← (Prod.mk.inj hresume).2])
      . exact .inl (by rw [← (Prod.mk.inj hresume).2])
    rcases hsession with hsession | hsession
    . simpa [Traffic.Exact, hsession] using hexact
    . simpa [Traffic.Exact, hsession] using hexact.step (.collect s.traffic)
  | _ => exact hexact

/-!
## A whole run
-/

theorem Run.shadowed_of_shadows (hrun : Run batches admits s trace t) (hsound : Sound batches x c)
    (hexact : s.traffic.Exact) (h : Shadows batches s c pending) :
    ∃ es d pending', Sharing.Run batches admits c es d ∧ Shadows batches t d pending'
      ∧ es.filterMap SharingEvent.performed? = performed trace
      ∧ pending ++ senders es = submitted trace ++ pending' := by
  induction hrun generalizing c pending with
  | nil s => exact ⟨[], c, pending, .nil c, h, rfl, List.append_nil _⟩
  | @cons s u t e trace hstep hrun ih =>
    obtain ⟨es, d, pending', hfirst, hshadows, hperformed, hpending⟩ :=
      h.step hsound hexact hstep
    obtain ⟨es', d', pending'', hsecond, hshadows', hperformed', hpending'⟩ :=
      ih (hfirst.sound hsound) (hstep.traffic_exact hexact) hshadows
    refine ⟨es ++ es', d', pending'', hfirst.append hsecond, hshadows', ?_, ?_⟩
    . rw [List.filterMap_append, hperformed, hperformed']
      cases he : e.performed? <;> simp [performed, he]
    . have hsenders : senders (es ++ es') = senders es ++ senders es' := List.filterMap_append ..
      have hsubmitted : submitted (e :: trace) = e.submitted?.toList ++ submitted trace := by
        cases he : e.submitted? <;> simp [submitted, he]
      rw [hsenders, ← List.append_assoc, hpending, List.append_assoc, hpending', hsubmitted,
        List.append_assoc]

/--
A run of batches that send one write after the other, on a session that may have anything
outstanding, is matched by a run of batches that send all their writes at once. In both the flusher
applies the same writes, and the batches get to the end of sending in the same order, though a batch
that is still sending may have got there before.
-/
theorem Run.shadowed {store : Store} (hx : x.Exact)
    (hrun : Run batches admits ⟨⟨x, store, []⟩, fun _ => none⟩ trace t) :
    ∃ es d pending, Sharing.Run batches admits { session := x, store := store } es d
      ∧ Shadows batches t d pending ∧ es.filterMap SharingEvent.performed? = performed trace
      ∧ senders es = submitted trace ++ pending := by
  have hquiet : Quiet (⟨⟨x, store, []⟩, fun _ => none⟩ : Sending ι) := by
    intro i rest hi
    contradiction
  obtain ⟨es, d, pending, hshared, hshadows, hperformed, hpending⟩ :=
    hrun.shadowed_of_shadows (sound_start hx store) ((Traffic.exact_iff rfl).2 hx)
      (.quiet hquiet rfl)
  exact ⟨es, d, pending, hshared, hshadows, hperformed, hpending⟩

theorem Shadows.stage?_eq {result : Except TransferError Unit} (h : Shadows batches s c pending)
    (hended : s.stage? i = some (.rests (.ended result))) :
    c.stage? i = some (.ended result) := by
  have hother : ∀ {j rest}, Sends batches s j rest → i ≠ j := by
    rintro j rest hsends rfl
    simp [hsends.stage?_eq] at hended
  cases h with
  | quiet => exact stage?_resting hended
  | sending hsends hopen =>
    rw [stage?_advance_of_ne (hother hsends)]
    exact stage?_resting hended
  | refusing hsends hclosed hall hne =>
    rw [stage?_advance_of_ne (hother hsends)]
    exact stage?_resting hended

theorem Shadows.not_mem_pending {stage : BatchStage} (h : Shadows batches s c pending)
    (hrests : s.stage? i = some (.rests stage)) : i ∉ pending := by
  cases h with
  | sending hsends hopen =>
    rw [List.mem_singleton]
    rintro rfl
    simp [hsends.stage?_eq] at hrests
  | _ => exact List.not_mem_nil

theorem Shadows.store_eq (h : Shadows batches s c pending) : c.store = s.traffic.store := by
  cases h <;> rfl

/-!
# What a batch has sent
-/

/--
The batch has not started to send.
-/
structure SentNothing (i : ι) (trace : List (SendingEvent ι)) : Prop where
  not_began : .began i ∉ trace
  sentBy_eq : sentBy i trace = []
  not_submitted : i ∉ submitted trace

/--
The batch has sent its writes up to these.
-/
structure SentPart (b : Batch) (i : ι) (trace : List (SendingEvent ι)) (rest : List Write) :
    Prop where
  sentBy_append : sentBy i trace ++ rest = b.writes
  not_submitted : i ∉ submitted trace

structure SentAll (b : Batch) (i : ι) (trace : List (SendingEvent ι)) : Prop where
  sentBy_eq : sentBy i trace = b.writes
  mem_submitted : i ∈ submitted trace

/--
What a batch at a stage has sent. One that a closed session has turned down is left out.
-/
def Progress (b : Batch) (i : ι) (trace : List (SendingEvent ι)) : Option SendingStage → Prop
  | none => SentNothing i trace
  | some (.rests (.clearing ws)) => ws = b.writes ∧ SentNothing i trace
  | some (.sends rest) => SentPart b i trace rest
  | some (.rests .settling) => SentAll b i trace
  | some (.rests (.ended result)) =>
    result ≠ .error (.store .sessionClosed) → SentNothing i trace ∨ SentAll b i trace

theorem sentBy_concat (trace : List (SendingEvent ι)) (hsent : sentBy i [e] = []) :
    sentBy i (trace ++ [e]) = sentBy i trace := by
  have happend : sentBy i (trace ++ [e]) = sentBy i trace ++ sentBy i [e] :=
    List.filterMap_append ..
  rw [happend, hsent, List.append_nil]

theorem sentBy_concat_sent (trace : List (SendingEvent ι)) (w : Write) :
    sentBy i (trace ++ [.called i (.sent w)]) = sentBy i trace ++ [w] := by
  simp [sentBy]

section Concat

variable {b : Batch} {rest : List Write}

theorem SentNothing.concat (h : SentNothing i trace) (hbegan : e ≠ .began i)
    (hsent : sentBy i [e] = []) (hsubmitted : e.submitted? ≠ some i) :
    SentNothing i (trace ++ [e]) := by
  constructor
  case not_began => simpa using ⟨h.not_began, Ne.symm hbegan⟩
  case sentBy_eq => rw [sentBy_concat trace hsent, h.sentBy_eq]
  case not_submitted => exact not_mem_submitted_concat h.not_submitted hsubmitted

theorem SentNothing.began (h : SentNothing i trace) :
    SentPart b i (trace ++ [.began i]) b.writes := by
  constructor
  case sentBy_append => rw [sentBy_concat trace rfl, h.sentBy_eq, List.nil_append]
  case not_submitted => exact not_mem_submitted_concat h.not_submitted (by simp [submitted?])

theorem SentPart.concat (h : SentPart b i trace rest) (hsent : sentBy i [e] = [])
    (hsubmitted : e.submitted? ≠ some i) : SentPart b i (trace ++ [e]) rest := by
  constructor
  case sentBy_append => rw [sentBy_concat trace hsent, h.sentBy_append]
  case not_submitted => exact not_mem_submitted_concat h.not_submitted hsubmitted

theorem SentPart.sent {w : Write} (h : SentPart b i trace (w :: rest)) :
    SentPart b i (trace ++ [.called i (.sent w)]) rest := by
  constructor
  case sentBy_append =>
    rw [sentBy_concat_sent, List.append_assoc]
    exact h.sentBy_append
  case not_submitted => exact not_mem_submitted_concat h.not_submitted (by simp [submitted?])

theorem SentPart.settled (h : SentPart b i trace []) :
    SentAll b i (trace ++ [.went i .settling]) := by
  constructor
  case sentBy_eq => rw [sentBy_concat trace rfl, ← h.sentBy_append, List.append_nil]
  case mem_submitted => simp [submitted, submitted?]

theorem SentAll.concat (h : SentAll b i trace) (hsent : sentBy i [e] = []) :
    SentAll b i (trace ++ [e]) := by
  constructor
  case sentBy_eq => rw [sentBy_concat trace hsent, h.sentBy_eq]
  case mem_submitted =>
    unfold submitted
    rw [List.filterMap_append]
    exact List.mem_append_left _ h.mem_submitted

end Concat

/--
A step of somebody else changes nothing.
-/
theorem Progress.other {b : Batch} {stage? : Option SendingStage} (h : Progress b i trace stage?)
    (hcaller : e.caller? ≠ some i) : Progress b i (trace ++ [e]) stage? := by
  have hbegan : e ≠ .began i := by
    rintro rfl
    exact hcaller rfl
  have hsent : sentBy i [e] = [] := by
    cases e with
    | called j event =>
      have hj : j ≠ i := by simpa [caller?] using hcaller
      cases event <;> simp [sentBy, hj]
    | _ => rfl
  have hsubmitted : e.submitted? ≠ some i := by
    cases e with
    | went j stage =>
      cases stage with
      | settling => exact hcaller
      | _ => simp [submitted?]
    | _ => simp [submitted?]
  have hnothing (h : SentNothing i trace) : SentNothing i (trace ++ [e]) :=
    h.concat hbegan hsent hsubmitted
  match stage? with
  | none => exact hnothing h
  | some (.rests (.clearing ws)) => exact ⟨h.1, hnothing h.2⟩
  | some (.sends rest) => exact h.concat hsent hsubmitted
  | some (.rests .settling) => exact h.concat hsent
  | some (.rests (.ended result)) =>
    intro hresult
    exact (h hresult).imp hnothing fun hall => hall.concat hsent

theorem Step.stage?_eq (hstep : Step batches admits s e t) (hcaller : e.caller? ≠ some i) :
    t.stage? i = s.stage? i := by
  have hother : ∀ {j stage u}, some j ≠ some i → (s.come j stage u).stage? i = s.stage? i := by
    intro j stage u hj
    rw [stage?_come_of_ne]
    rintro rfl
    exact hj rfl
  cases hstep with
  | flush hstep hflusher => rfl
  | _ => exact hother hcaller

theorem Progress.step (h : Progress (batches i) i trace (s.stage? i))
    (hstep : Step batches admits s e t) :
    Progress (batches i) i (trace ++ [e]) (t.stage? i) := by
  by_cases hcaller : e.caller? = some i
  . cases hstep with
    | wait hquiet hnew hadmits hbusy =>
      cases hcaller
      rw [hnew] at h
      rw [stage?_come_self]
      exact ⟨rfl, h.concat (by simp) rfl (by simp [submitted?])⟩
    | begin hquiet hnew hadmits hfree =>
      cases hcaller
      rw [hnew] at h
      rw [stage?_come_self]
      exact h.began
    | clear hquiet hstage hdrained =>
      cases hcaller
      rw [hstage] at h
      obtain ⟨rfl, h⟩ := h
      rw [stage?_come_self]
      exact h.began
    | announce hstage hnone hstep =>
      cases hcaller
      rw [hstage] at h
      rw [stage?_come_self]
      exact h.concat rfl (by simp [submitted?])
    | send hstage hstep =>
      cases hcaller
      rw [hstage] at h
      rw [stage?_come_self]
      exact h.sent
    | refuse hstage hstep =>
      cases hcaller
      rw [stage?_come_self]
      intro hresult
      exact absurd rfl hresult
    | settle hstage =>
      cases hcaller
      rw [hstage] at h
      rw [stage?_come_self]
      exact h.settled
    | judge hquiet hstage hdrained hresume =>
      cases hcaller
      rw [hstage] at h
      rw [stage?_come_self]
      intro hresult
      exact .inr (h.concat rfl)
    | @expire j stage timeout hquiet hstage hwaits htimeout =>
      cases hcaller
      rw [hstage] at h
      rw [stage?_come_self]
      intro hresult
      cases stage with
      | clearing ws =>
        exact .inl (h.2.concat (by simp) rfl (by simp [submitted?, BatchStage.expired]))
      | settling => exact .inr (h.concat rfl)
      | ended result => contradiction
    | flush hstep hflusher => contradiction
  . rw [hstep.stage?_eq hcaller]
    exact h.other hcaller

theorem Run.progress (before : List (SendingEvent ι)) (hrun : Run batches admits s trace t)
    (h : Progress (batches i) i before (s.stage? i)) :
    Progress (batches i) i (before ++ trace) (t.stage? i) := by
  induction hrun generalizing before with
  | nil s => simpa using h
  | cons hstep _ ih => simpa using ih _ (h.step hstep)

end Sending

end KeyedTables
