import Mathlib.Logic.Function.Basic
import KeyedTables.Proofs.Session.Traffic
import KeyedTables.Proofs.Session.Verdict

/-!
This module contains sessions that several batches use. A batch does in one step what it does between
two waits, and the steps of the batches come in any order, with those of the flusher between them. At
any time it is settled what the session comes to when its flusher has done everything: which rows the
store will have, and which failures a batch will find. Only a batch that sends its writes and a batch
that returns change that.
-/

namespace KeyedTables

/--
A batch as a caller applies it.
-/
structure Batch where
  policy : BatchPolicy
  writes : List Write

def BatchStage.result? : BatchStage → Option (Except TransferError Unit)
  | .ended result => some result
  | _ => none

/--
A session with batches on it, and the store that its flusher applies writes to. A batch that has no
stage has not started.
-/
structure Sharing (ι : Type) where
  session : Session
  store : Store
  stage? : ι → Option BatchStage := fun _ => none

inductive SharingEvent (ι : Type) where
  /-- A batch has come to a stage, and the session got these writes from it on the way. -/
  | went (i : ι) (stage : BatchStage) (sent : List Write)
  /-- The flusher took a step. -/
  | flushed (e : SessionEvent)

namespace SharingEvent

variable {ι : Type}

def sent : SharingEvent ι → List Write
  | .went _ _ ws => ws
  | .flushed _ => []

def performed? : SharingEvent ι → Option Write
  | .went _ _ _ => none
  | .flushed e => e.performed?

end SharingEvent

namespace Session

/--
The writes that a session has to do in the state `y` and had not in the state `x` before.
-/
def added (x y : Session) : List Write :=
  y.todo.drop x.todo.length

end Session

namespace Sharing

variable {ι : Type} [DecidableEq ι]

/--
The batch `i` comes to a stage and leaves the session as it is given.
-/
def advance (s : Sharing ι) (i : ι) (stage : BatchStage) (x : Session) : Sharing ι :=
  { s with session := x, stage? := Function.update s.stage? i (some stage) }

/--
One step of a batch or of the flusher. A batch goes on only when nothing is outstanding; while it
waits, its time may be up at any moment. A batch may start when it is admitted. It sends its writes
in one step: batches that send them one by one come to the same, as `Sending.Run.shadowed` shows.
-/
inductive Step (batches : ι → Batch) (admits : Sharing ι → ι → Prop) :
    Sharing ι → SharingEvent ι → Sharing ι → Prop where
  | start {s : Sharing ι} {i : ι} {stage : BatchStage} {c : Channel} (hnew : s.stage? i = none)
    (hadmits : admits s i)
    (hstart : BatchStage.start (batches i).writes ⟨s.session, {}⟩ = (stage, c)) :
    Step batches admits s (.went i stage (s.session.added c.session))
      (s.advance i stage c.session)
  | resume {s : Sharing ι} {i : ι} {stage stage' : BatchStage} {c : Channel}
    (hstage : s.stage? i = some stage) (hwaits : stage.result? = none)
    (hdrained : s.session.hasPending = false)
    (hresume : stage.resume (batches i).policy ⟨s.session, {}⟩ = (stage', c)) :
    Step batches admits s (.went i stage' (s.session.added c.session))
      (s.advance i stage' c.session)
  | expire {s : Sharing ι} {i : ι} {stage : BatchStage} {timeout : Duration}
    (hstage : s.stage? i = some stage) (hwaits : stage.result? = none)
    (htimeout : (batches i).policy.timeout? = some timeout) :
    Step batches admits s (.went i (.expired timeout) [])
      (s.advance i (.expired timeout) s.session)
  | flush {s : Sharing ι} {e : SessionEvent} {t : Traffic}
    (hstep : Traffic.Step ⟨s.session, s.store, []⟩ e t) (hflusher : e.isOfFlusher = true) :
    Step batches admits s (.flushed e) { s with session := t.session, store := t.store }

/--
Steps one after the other, with what happens in them.
-/
inductive Run (batches : ι → Batch) (admits : Sharing ι → ι → Prop) :
    Sharing ι → List (SharingEvent ι) → Sharing ι → Prop where
  | nil (s : Sharing ι) : Run batches admits s [] s
  | cons {s t u : Sharing ι} {e : SharingEvent ι} {trace : List (SharingEvent ι)}
    (hstep : Step batches admits s e t) (hrun : Run batches admits t trace u) :
    Run batches admits s (e :: trace) u

end Sharing

/-!
# Steps of the flusher
-/

namespace Session

variable {x y : Session}

/--
The session with more writes in its queue, and with an exact count.
-/
def loaded (x : Session) (ws : List Write) : Session :=
  { x with
    outstanding := x.queue.length + x.inHand + ws.length
    queue := x.queue ++ ws }

theorem Exact.loaded_eq (hx : x.Exact) (ws : List Write) : x.loaded ws = x.enqueue ws := by
  unfold Exact at hx
  rw [loaded, enqueue, hx]

theorem take_loaded {w : Write} {queue : List Write} (hidle : x.flusher = .idle)
    (hqueue : x.queue = w :: queue) (ws : List Write) : (x.loaded ws).take = x.take.loaded ws := by
  have hidle' : (x.loaded ws).flusher = .idle := hidle
  have hqueue' : (x.loaded ws).queue = w :: (queue ++ ws) := by
    rw [loaded, hqueue, List.cons_append]
  rw [take_of_idle hidle hqueue, take_of_idle hidle' hqueue']
  simp [loaded, inHand, hidle, hqueue]

theorem perform_loaded (x : Session) (store : Store) (ws : List Write) :
    (x.loaded ws).perform store = ((x.perform store).1.loaded ws, (x.perform store).2) := by
  cases hflusher : x.flusher with
  | holding w =>
    have hflusher' : (x.loaded ws).flusher = .holding w := hflusher
    cases happly : store.apply w with
    | ok store' =>
      rw [perform_of_ok hflusher happly, perform_of_ok hflusher' happly]
      simp [loaded, inHand, hflusher]
    | error status =>
      rw [perform_of_error hflusher happly, perform_of_error hflusher' happly]
      simp [loaded, inHand, hflusher]
  | _ => simp [perform, loaded, hflusher]

theorem finish_loaded (hfinishing : x.flusher = .finishing) (ws : List Write) :
    (x.loaded ws).finish = x.finish.loaded ws := by
  have hfinishing' : (x.loaded ws).flusher = .finishing := hfinishing
  rw [finish_of_finishing hfinishing, finish_of_finishing hfinishing']
  simp [loaded, inHand, hfinishing]

theorem kept_congr (h : x.settings = y.settings) : x.kept = y.kept := by
  unfold kept failures
  rw [h]

end Session

namespace Traffic

variable {t u : Traffic} {e : SessionEvent}

theorem announced_flush (hstep : Step t e u) (hflusher : e.isOfFlusher = true) :
    u.announced = t.announced := by
  cases hstep <;> first | rfl | contradiction

theorem exact_iff (h : t.announced = []) : t.Exact ↔ t.session.Exact := by
  simp [Traffic.Exact, Session.Exact, h]

theorem sent?_of_flusher (hflusher : e.isOfFlusher = true) : e.sent? = none := by
  cases e <;> trivial

theorem todo_flush (hstep : Step t e u) (hflusher : e.isOfFlusher = true) :
    t.session.todo = e.performed?.toList ++ u.session.todo := by
  have htodo := todo_step hstep
  rwa [sent?_of_flusher hflusher, Option.toList_none, List.append_nil] at htodo

theorem closed_flush (hstep : Step t e u) (hflusher : e.isOfFlusher = true) :
    u.session.closed = t.session.closed := by
  cases hstep with
  | take hidle hqueue => rw [Session.take_of_idle hidle hqueue]
  | accept hholds happly => rw [Session.perform_of_ok hholds happly]
  | reject hholds happly => rw [Session.perform_of_error hholds happly]
  | finish hfinishing => rw [Session.finish_of_finishing hfinishing]
  | _ => contradiction

/--
The rows that the store will have do not change.
-/
theorem appliedAll_flush (hstep : Step t e u) (hflusher : e.isOfFlusher = true) :
    u.store.appliedAll u.session.todo = t.store.appliedAll t.session.todo := by
  rw [store_step hstep, todo_flush hstep hflusher, Store.appliedAll_append]

theorem errors_flush (hstep : Step t e u) (hflusher : e.isOfFlusher = true) :
    u.session.errors
      = t.session.errors.recordAll t.session.settings.errorCapacity e.handed?.toList := by
  rw [errors_step hstep]
  cases e with
  | performed w failure? => cases failure? <;> rfl
  | taken w => rfl
  | finished => rfl
  | _ => contradiction

/--
The failures that the session will keep do not change: those that are handed over now are the first
ones of those that were to come.
-/
theorem settled_flush (hstep : Step t e u) (hflusher : e.isOfFlusher = true) :
    (u.session.settled u.store).errors = (t.session.settled t.store).errors := by
  have hfailures : u.session.failures = t.session.failures := by
    unfold Session.failures
    rw [settings_step hstep]
  unfold Session.settled
  dsimp only
  rw [hfailures, settings_step hstep, errors_flush hstep hflusher, handed_step hstep,
    store_step hstep, todo_flush hstep hflusher, Store.rejections_append]
  unfold FailureBuffer.recordAll Session.failures
  rw [List.map_append, List.foldl_append]

/--
The flusher takes the same steps if there are more writes in the queue.
-/
theorem step_loaded (hstep : Step t e u) (hflusher : e.isOfFlusher = true) (ws : List Write) :
    Step ⟨t.session.loaded ws, t.store, []⟩ e ⟨u.session.loaded ws, u.store, []⟩ := by
  cases hstep with
  | @take w queue hidle hqueue =>
    have hqueue' : (t.session.loaded ws).queue = w :: (queue ++ ws) := by
      rw [Session.loaded, hqueue, List.cons_append]
    rw [← Session.take_loaded hidle hqueue]
    exact .take hidle hqueue'
  | accept hholds happly =>
    have haccept := Step.accept (t := ⟨t.session.loaded ws, t.store, []⟩) hholds happly
    rwa [Session.perform_loaded] at haccept
  | reject hholds happly =>
    have hreject := Step.reject (t := ⟨t.session.loaded ws, t.store, []⟩) hholds happly
    rwa [Session.perform_loaded] at hreject
  | finish hfinishing =>
    rw [← Session.finish_loaded hfinishing]
    exact .finish hfinishing
  | _ => contradiction

end Traffic

/-!
# Steps of batches
-/

namespace Session

variable {x y : Session}

@[simp]
theorem added_self (x : Session) : x.added x = [] := by
  simp [added]

theorem outstanding_of_not_hasPending (h : x.hasPending = false) : x.outstanding = 0 := by
  simpa [hasPending] using h

theorem added_of_todo (h : x.todo = []) (y : Session) : x.added y = y.todo := by
  simp [added, h]

end Session

namespace Sharing

variable {ι : Type} {batches : ι → Batch} {s t : Sharing ι} {x : Session}

/--
The batch has not sent its writes yet.
-/
def Unsent (batches : ι → Batch) (s : Sharing ι) (i : ι) : Prop :=
  s.stage? i = none ∨ s.stage? i = some (.clearing (batches i).writes)

/--
The session `x` with batches on it: its count of outstanding writes is exact, and a batch that waits
before it sends has its own writes to send.
-/
structure Sound (batches : ι → Batch) (x : Session) (s : Sharing ι) : Prop where
  settings_eq : s.session.settings = x.settings
  closed_eq : s.session.closed = x.closed
  exact : s.session.Exact
  clearing_eq : ∀ i ws, s.stage? i = some (.clearing ws) → ws = (batches i).writes

theorem sound_start (hx : x.Exact) (store : Store) :
    Sound batches x ({ session := x, store := store } : Sharing ι) := by
  refine ⟨rfl, rfl, hx, ?_⟩
  intro i ws hclearing
  contradiction

variable [DecidableEq ι] {admits : Sharing ι → ι → Prop}
variable {e : SharingEvent ι} {trace : List (SharingEvent ι)} {i j : ι} {stage : BatchStage}

@[simp]
theorem session_advance : (s.advance i stage x).session = x := by
  rfl

@[simp]
theorem store_advance : (s.advance i stage x).store = s.store := by
  rfl

@[simp]
theorem stage?_advance_self : (s.advance i stage x).stage? i = some stage := by
  simp [advance]

theorem stage?_advance_of_ne (h : j ≠ i) : (s.advance i stage x).stage? j = s.stage? j := by
  simp [advance, h]

/--
What a step does, for a session in which the count of outstanding writes is exact. Wherever a batch
gets beyond a wait, nothing is outstanding.
-/
inductive Move (batches : ι → Batch) (admits : Sharing ι → ι → Prop) :
    Sharing ι → SharingEvent ι → Sharing ι → Prop where
  | wait {s : Sharing ι} {i : ι} (hnew : s.stage? i = none) (hadmits : admits s i) :
    Move batches admits s (.went i (.clearing (batches i).writes) [])
      (s.advance i (.clearing (batches i).writes) s.session)
  | send {s : Sharing ι} {i : ι} {y : Session} (hunsent : s.Unsent batches i)
    (hadmits : s.stage? i = none → admits s i) (hdrained : s.session.outstanding = 0)
    (hclears : s.session.Clears y) (hopen : s.session.closed = true → (batches i).writes = []) :
    Move batches admits s (.went i .settling (batches i).writes)
      (s.advance i .settling (y.enqueue (batches i).writes))
  | refuse {s : Sharing ι} {i : ι} {y : Session} (hunsent : s.Unsent batches i)
    (hadmits : s.stage? i = none → admits s i) (hdrained : s.session.outstanding = 0)
    (hclears : s.session.Clears y) (hclosed : s.session.closed = true)
    (hne : (batches i).writes ≠ []) :
    Move batches admits s (.went i (.ended (.error (.store .sessionClosed))) [])
      (s.advance i (.ended (.error (.store .sessionClosed))) y)
  | judge {s : Sharing ι} {i : ι} {y : Session} (hsettling : s.stage? i = some .settling)
    (hdrained : s.session.outstanding = 0) (hclears : s.session.Clears y) :
    Move batches admits s
      (.went i (.ended ((batches i).policy.judge s.session.errors.failures)) [])
      (s.advance i (.ended ((batches i).policy.judge s.session.errors.failures)) y)
  | expire {s : Sharing ι} {i : ι} {stage : BatchStage} {timeout : Duration}
    (hstage : s.stage? i = some stage) (hwaits : stage.result? = none)
    (htimeout : (batches i).policy.timeout? = some timeout) :
    Move batches admits s (.went i (.expired timeout) [])
      (s.advance i (.expired timeout) s.session)
  | flush {s : Sharing ι} {e : SessionEvent} {t : Traffic}
    (hstep : Traffic.Step ⟨s.session, s.store, []⟩ e t) (hflusher : e.isOfFlusher = true) :
    Move batches admits s (.flushed e) { s with session := t.session, store := t.store }

/--
A batch that sends its writes to a drained session without failures either gets all of them into the
queue or, if the session is closed, none.
-/
theorem Sound.move_of_submit {c : Channel} {y : Session} (h : Sound batches x s)
    (hunsent : s.Unsent batches i) (hadmits : s.stage? i = none → admits s i)
    (hdrained : s.session.outstanding = 0) (hclears : s.session.Clears y)
    (hsubmit : BatchStage.submit (batches i).writes ⟨y, {}⟩ = (stage, c)) :
    Move batches admits s (.went i stage (s.session.added c.session))
      (s.advance i stage c.session) := by
  have htodo := h.exact.todo_eq hdrained
  rcases BatchStage.submit_cases y (batches i).writes
    with ⟨hopen, hsent⟩ | ⟨hclosed, hne, hnone⟩
  . rw [hsent, Prod.mk.injEq] at hsubmit
    obtain ⟨rfl, rfl⟩ := hsubmit
    rw [Session.added_of_todo htodo, Session.todo_enqueue, hclears.clean.todo_eq, List.nil_append]
    exact .send hunsent hadmits hdrained hclears (by rwa [← hclears.closed_eq])
  . rw [hnone, Prod.mk.injEq] at hsubmit
    obtain ⟨rfl, rfl⟩ := hsubmit
    rw [Session.added_of_todo htodo, hclears.clean.todo_eq]
    exact .refuse hunsent hadmits hdrained hclears (by rw [← hclears.closed_eq, hclosed]) hne

theorem Sound.move (h : Sound batches x s) (hstep : Step batches admits s e t) :
    Move batches admits s e t := by
  cases hstep with
  | @start i stage c hnew hadmits hstart =>
    unfold BatchStage.start at hstart
    split at hstart
    . rw [Prod.mk.injEq] at hstart
      obtain ⟨rfl, rfl⟩ := hstart
      rw [Session.added_self]
      exact .wait hnew hadmits
    . next hfree =>
      rw [Bool.or_eq_true, decide_eq_true_iff, not_or, Bool.not_eq_true] at hfree
      obtain ⟨hpending, hcount⟩ := hfree
      have hdrained := Session.outstanding_of_not_hasPending hpending
      have hfailures : s.session.errors.failures = [] :=
        List.eq_nil_of_length_eq_zero (Nat.eq_zero_of_not_pos hcount)
      have hclean : s.session.Clean := ⟨h.exact.steady hdrained, hdrained, hfailures⟩
      exact h.move_of_submit (.inl hnew) (fun _ => hadmits) hdrained ⟨hclean, rfl, rfl⟩ hstart
  | @resume i stage stage' c hstage hwaits hpending hresume =>
    have hdrained := Session.outstanding_of_not_hasPending hpending
    have hsteady := h.exact.steady hdrained
    cases stage with
    | clearing ws =>
      have hws := h.clearing_eq i ws hstage
      rw [hws] at hstage hresume
      apply h.move_of_submit (.inr hstage) _ hdrained (hsteady.clears_collect hdrained) hresume
      intro hnew
      rw [hnew] at hstage
      contradiction
    | settling =>
      obtain ⟨y, hjudge, hclears⟩ :=
        BatchStage.resume_settling (p := (batches i).policy) hsteady hdrained
      rw [hjudge, Prod.mk.injEq] at hresume
      obtain ⟨rfl, rfl⟩ := hresume
      rw [Session.added_of_todo (h.exact.todo_eq hdrained), hclears.clean.todo_eq]
      exact .judge hstage hdrained hclears
    | ended result => contradiction
  | expire hstage hwaits htimeout => exact .expire hstage hwaits htimeout
  | flush hstep hflusher => exact .flush hstep hflusher

theorem Sound.advance {y : Session} (h : Sound batches x s)
    (hsettings : y.settings = s.session.settings) (hclosed : y.closed = s.session.closed)
    (hexact : y.Exact) (hstage : ∀ ws, stage = .clearing ws → ws = (batches i).writes) :
    Sound batches x (s.advance i stage y) := by
  constructor
  case settings_eq => exact hsettings.trans h.settings_eq
  case closed_eq => exact hclosed.trans h.closed_eq
  case exact => exact hexact
  case clearing_eq =>
    intro j ws hj
    by_cases hji : j = i
    . rw [hji, stage?_advance_self, Option.some.injEq] at hj
      rw [hji]
      exact hstage ws hj
    . rw [stage?_advance_of_ne hji] at hj
      exact h.clearing_eq j ws hj

theorem Sound.step (h : Sound batches x s) (hstep : Step batches admits s e t) :
    Sound batches x t := by
  cases h.move hstep with
  | wait hnew hadmits =>
    apply h.advance rfl rfl h.exact
    rintro ws ⟨⟩
    rfl
  | send hunsent hadmits hdrained hclears =>
    refine h.advance hclears.settings_eq hclears.closed_eq ?_ (by simp)
    exact (hclears.clean.steady.enqueue _).exact
  | refuse hunsent hadmits hdrained hclears hclosed =>
    exact h.advance hclears.settings_eq hclears.closed_eq hclears.clean.steady.exact (by simp)
  | judge hsettling hdrained hclears =>
    exact h.advance hclears.settings_eq hclears.closed_eq hclears.clean.steady.exact (by simp)
  | expire hstage hwaits htimeout =>
    exact h.advance rfl rfl h.exact (by simp [BatchStage.expired])
  | flush hflush hflusher =>
    constructor
    case settings_eq => rw [← h.settings_eq, Traffic.settings_step hflush]
    case closed_eq => rw [← h.closed_eq, Traffic.closed_flush hflush hflusher]
    case exact =>
      have hexact := Traffic.Exact.step ((Traffic.exact_iff rfl).2 h.exact) hflush
      exact (Traffic.exact_iff (Traffic.announced_flush hflush hflusher)).1 hexact
    case clearing_eq => exact h.clearing_eq

theorem Run.sound (hrun : Run batches admits s trace t) (h : Sound batches x s) :
    Sound batches x t := by
  induction hrun with
  | nil s => exact h
  | cons hstep _ ih => exact ih (h.step hstep)

theorem Run.append {u : Sharing ι} {trace' : List (SharingEvent ι)}
    (hfirst : Run batches admits s trace t) (hsecond : Run batches admits t trace' u) :
    Run batches admits s (trace ++ trace') u := by
  induction hfirst with
  | nil s => exact hsecond
  | cons hstep _ ih => exact .cons hstep (ih hsecond)

theorem run_append {trace' : List (SharingEvent ι)} (hrun : Run batches admits s (trace ++ trace') t) :
    ∃ u, Run batches admits s trace u ∧ Run batches admits u trace' t := by
  induction trace generalizing s with
  | nil => exact ⟨s, .nil s, hrun⟩
  | cons e trace ih =>
    cases hrun with
    | cons hstep hrun =>
      obtain ⟨u, hfirst, hsecond⟩ := ih hrun
      exact ⟨u, .cons hstep hfirst, hsecond⟩

/-!
# What a session comes to
-/

theorem todo_step (h : Sound batches x s) (hstep : Step batches admits s e t) :
    s.session.todo ++ e.sent = e.performed?.toList ++ t.session.todo := by
  cases h.move hstep with
  | wait hnew hadmits => apply List.append_nil
  | send hunsent hadmits hdrained hclears =>
    rw [h.exact.todo_eq hdrained, session_advance, Session.todo_enqueue, hclears.clean.todo_eq]
    rfl
  | refuse hunsent hadmits hdrained hclears hclosed =>
    rw [h.exact.todo_eq hdrained, session_advance, hclears.clean.todo_eq]
    rfl
  | judge hsettling hdrained hclears =>
    rw [h.exact.todo_eq hdrained, session_advance, hclears.clean.todo_eq]
    rfl
  | expire hstage hwaits htimeout => apply List.append_nil
  | flush hflush hflusher =>
    rw [Traffic.todo_flush hflush hflusher]
    apply List.append_nil

theorem store_step (hstep : Step batches admits s e t) :
    t.store = s.store.appliedAll e.performed?.toList := by
  cases hstep with
  | flush hflush hflusher => exact Traffic.store_step hflush
  | _ => rfl

/--
What the session had to do and what batches send is what the flusher applies, in the same order, and
then what the session has still to do.
-/
theorem Run.accounts (h : Sound batches x s) (hrun : Run batches admits s trace t) :
    s.session.todo ++ trace.flatMap SharingEvent.sent
        = trace.filterMap SharingEvent.performed? ++ t.session.todo
      ∧ t.store = s.store.appliedAll (trace.filterMap SharingEvent.performed?) := by
  induction hrun with
  | nil s => simp
  | @cons s u t e trace hstep hrun ih =>
    obtain ⟨hsent, hstore⟩ := ih (h.step hstep)
    have hperformed : (e :: trace).filterMap SharingEvent.performed?
        = e.performed?.toList ++ trace.filterMap SharingEvent.performed? := by
      rw [List.filterMap_cons]
      cases e.performed? <;> rfl
    rw [hperformed]
    constructor
    . rw [List.flatMap_cons, ← List.append_assoc, todo_step h hstep, List.append_assoc, hsent,
        List.append_assoc]
    . rw [hstore, store_step hstep, Store.appliedAll_append]

end Sharing

/--
What a session comes to when its flusher has done everything: the rows of the store, and the failures
that are kept.
-/
structure Prospect where
  store : Store
  failures : List FailedWrite

/--
What the session `x` comes to after a step of a batch. The session is drained before a batch sends
its writes, and the batch throws away the failures that it finds then.
-/
def Prospect.after {ι : Type} (x : Session) (p : Prospect) : SharingEvent ι → Prospect
  | .went _ .settling ws => ⟨p.store.appliedAll ws, x.kept p.store ws⟩
  | .went _ (.ended (.error (.timedOut _))) _ => p
  | .went _ (.ended _) _ => { p with failures := [] }
  | .went _ (.clearing _) _ => p
  | .flushed _ => p

namespace Sharing

variable {ι : Type} {batches : ι → Batch} {s t : Sharing ι} {x : Session}

def prospect (s : Sharing ι) : Prospect :=
  ⟨s.store.appliedAll s.session.todo, (s.session.settled s.store).errors.failures⟩

theorem Sound.prospect_eq (h : Sound batches x s) (hdrained : s.session.outstanding = 0) :
    s.prospect = ⟨s.store, s.session.errors.failures⟩ := by
  have htodo := h.exact.todo_eq hdrained
  unfold prospect
  rw [(h.exact.steady hdrained).settled_eq htodo, htodo]
  rfl

variable [DecidableEq ι] {admits : Sharing ι → ι → Prop}
variable {e : SharingEvent ι} {trace : List (SharingEvent ι)} {i j : ι} {stage : BatchStage}

theorem prospect_advance_of_clean {y : Session} (hy : y.Clean) :
    (s.advance i stage y).prospect = ⟨s.store, []⟩ := by
  unfold prospect
  rw [session_advance, store_advance, hy.steady.settled_eq hy.todo_eq, hy.todo_eq, hy.failures_eq]
  rfl

theorem prospect_step (h : Sound batches x s) (hstep : Step batches admits s e t) :
    t.prospect = s.prospect.after x e := by
  cases h.move hstep with
  | wait hnew hadmits => rfl
  | @send i y hunsent hadmits hdrained hclears =>
    have hkept : x.kept = y.kept := by
      apply Session.kept_congr
      rw [hclears.settings_eq, h.settings_eq]
    rw [h.prospect_eq hdrained]
    unfold prospect Prospect.after
    rw [session_advance, store_advance, hclears.clean.settled_enqueue, Session.todo_enqueue,
      hclears.clean.todo_eq, hkept]
    rfl
  | refuse hunsent hadmits hdrained hclears hclosed =>
    rw [h.prospect_eq hdrained, prospect_advance_of_clean hclears.clean]
    rfl
  | @judge i y hsettling hdrained hclears =>
    rw [h.prospect_eq hdrained, prospect_advance_of_clean hclears.clean]
    rcases (batches i).policy.judge_cases s.session.errors.failures with hok | ⟨_, _, _, _, herror⟩
    . rw [hok]
      rfl
    . rw [herror]
      rfl
  | expire hstage hwaits htimeout => rfl
  | flush hflush hflusher =>
    unfold prospect Prospect.after
    dsimp only
    rw [Traffic.appliedAll_flush hflush hflusher, Traffic.settled_flush hflush hflusher]

end Sharing

end KeyedTables
