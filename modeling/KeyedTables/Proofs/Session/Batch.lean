import KeyedTables.Proofs.Session.Wait

/-!
This module contains what a batch does on a session that nobody else uses. Whatever the session has
outstanding is applied first, and then the writes of the batch. The batch is judged by those of
their failures that the session keeps.
-/

namespace KeyedTables

namespace Session

/--
Nothing is outstanding and no failures are kept.
-/
structure Clean (x : Session) : Prop where
  steady : x.Steady
  outstanding_eq : x.outstanding = 0
  failures_eq : x.errors.failures = []

/--
The session `y` is what `x` becomes when nothing is outstanding any more and no failures are kept.
-/
structure Clears (x y : Session) : Prop where
  clean : y.Clean
  settings_eq : y.settings = x.settings
  closed_eq : y.closed = x.closed

theorem Clears.trans {x y z : Session} (hxy : x.Clears y) (hyz : y.Clears z) : x.Clears z := by
  constructor
  case clean => exact hyz.clean
  case settings_eq => rw [hyz.settings_eq, hxy.settings_eq]
  case closed_eq => rw [hyz.closed_eq, hxy.closed_eq]

def enqueue (x : Session) (ws : List Write) : Session :=
  { x with outstanding := x.outstanding + ws.length, queue := x.queue ++ ws }

/--
The failures that the session keeps of writes that are sent while it is clean.
-/
def kept (x : Session) (store : Store) (ws : List Write) : List FailedWrite :=
  x.failures ((store.rejections ws).take x.settings.errorCapacity)

variable {x : Session} {w : Write} {ws : List Write}

theorem clean_new (settings : SessionSettings) : Session.Clean { settings := settings } := by
  constructor
  case steady => exact ⟨by simp, rfl⟩
  case outstanding_eq => rfl
  case failures_eq => rfl

theorem Clean.todo_eq (hx : x.Clean) : x.todo = [] :=
  hx.steady.todo_eq_nil hx.outstanding_eq

@[simp]
theorem todo_enqueue (x : Session) (ws : List Write) : (x.enqueue ws).todo = x.todo ++ ws := by
  unfold todo enqueue
  cases x.flusher <;> rfl

theorem Steady.enqueue (hx : x.Steady) (ws : List Write) : (x.enqueue ws).Steady := by
  constructor
  case flusher_ne => exact hx.flusher_ne
  case outstanding_eq =>
    rw [todo_enqueue, List.length_append, ← hx.outstanding_eq]
    rfl

theorem steady_settled (x : Session) (store : Store) : (x.settled store).Steady := by
  constructor
  case flusher_ne => simp [settled]
  case outstanding_eq => rfl

theorem Steady.clears_collect (hx : x.Steady) (hout : x.outstanding = 0) :
    x.Clears x.collect.2 := by
  constructor
  case clean => exact ⟨⟨hx.flusher_ne, hx.outstanding_eq⟩, hout, rfl⟩
  case settings_eq => rfl
  case closed_eq => rfl

theorem clears_collect_settled (x : Session) (store : Store) :
    x.Clears (x.settled store).collect.2 := by
  constructor
  case clean => exact ((steady_settled x store).clears_collect rfl).clean
  case settings_eq => rfl
  case closed_eq => rfl

theorem Clean.settled_enqueue (hx : x.Clean) (store : Store) (ws : List Write) :
    ((x.enqueue ws).settled store).errors.failures = x.kept store ws := by
  have htodo : (x.enqueue ws).todo = ws := by
    rw [todo_enqueue, hx.todo_eq, List.nil_append]
  have hroom : x.errors.failures.length ≤ x.settings.errorCapacity := by
    rw [hx.failures_eq]
    exact Nat.zero_le _
  have hrecorded := FailureBuffer.failures_recordAll hroom (x.failures (store.rejections ws))
  rw [hx.failures_eq, List.nil_append] at hrecorded
  unfold settled kept failures
  rw [htodo, List.map_take]
  exact hrecorded

end Session

namespace Channel

variable {x : Session}

theorem submitAll_of_open (hopen : x.closed = false) (ws : List Write) :
    Channel.submitAll ⟨x, {}⟩ ws = (.ok (), ⟨x.enqueue ws, {}⟩) := by
  induction ws generalizing x with
  | nil => simp [submitAll, Session.enqueue]
  | cons w ws ih =>
    have hsubmit : Channel.submit ⟨x, {}⟩ w = (.ok (), ⟨x.enqueue [w], {}⟩) := by
      simp [submit, Session.submit, Session.announce, Session.send, Session.enqueue, hopen]
    unfold submitAll
    rw [hsubmit]
    simp only
    rw [ih (by exact hopen)]
    simp [Session.enqueue, Nat.add_assoc, Nat.add_comm 1]

theorem submitAll_of_closed (hclosed : x.closed = true) (w : Write) (ws : List Write) :
    Channel.submitAll ⟨x, {}⟩ (w :: ws) = (.error .sessionClosed, ⟨x, {}⟩) := by
  have hsubmit : Channel.submit ⟨x, {}⟩ w = (.error .sessionClosed, ⟨x, {}⟩) := by
    cases x
    cases hclosed
    rfl
  unfold submitAll
  rw [hsubmit]

end Channel

namespace BatchStage

variable {x : Session} {p : BatchPolicy}

theorem submit_of_open (hopen : x.closed = false) (ws : List Write) :
    submit ws ⟨x, {}⟩ = (.settling, ⟨x.enqueue ws, {}⟩) := by
  unfold submit
  rw [Channel.submitAll_of_open hopen]

theorem submit_of_closed (hclosed : x.closed = true) (w : Write) (ws : List Write) :
    submit (w :: ws) ⟨x, {}⟩ = (.ended (.error (.store .sessionClosed)), ⟨x, {}⟩) := by
  unfold submit
  rw [Channel.submitAll_of_closed hclosed]

theorem submit_cases (x : Session) (ws : List Write) :
    (x.closed = true → ws = []) ∧ submit ws ⟨x, {}⟩ = (.settling, ⟨x.enqueue ws, {}⟩)
      ∨ x.closed = true ∧ ws ≠ []
        ∧ submit ws ⟨x, {}⟩ = (.ended (.error (.store .sessionClosed)), ⟨x, {}⟩) := by
  cases hclosed : x.closed with
  | false => exact .inl ⟨nofun, submit_of_open hclosed ws⟩
  | true =>
    cases ws with
    | nil =>
      have hnone : x.enqueue [] = x := by simp [Session.enqueue]
      rw [hnone]
      exact .inl ⟨fun _ => rfl, rfl⟩
    | cons w ws => exact .inr ⟨rfl, by simp, submit_of_closed hclosed w ws⟩

theorem start_of_clean (hx : x.Clean) (ws : List Write) : start ws ⟨x, {}⟩ = submit ws ⟨x, {}⟩ := by
  unfold start
  rw [if_neg]
  simp [Session.hasPending, Session.errorCount, hx.outstanding_eq, hx.failures_eq]

theorem start_of_not_clean (hx : x.Exact) (hdirty : ¬ x.Clean) (ws : List Write) :
    start ws ⟨x, {}⟩ = (.clearing ws, ⟨x, {}⟩) := by
  unfold start
  split
  . rfl
  . next hnone =>
    rw [Bool.or_eq_true, decide_eq_true_iff, not_or] at hnone
    obtain ⟨hpending, hcount⟩ := hnone
    unfold Session.hasPending at hpending
    unfold Session.errorCount at hcount
    rw [decide_eq_true_iff] at hpending
    have hout := Nat.eq_zero_of_not_pos hpending
    refine absurd ⟨hx.steady hout, hout, ?_⟩ hdirty
    rw [← List.length_eq_zero_iff]
    exact Nat.eq_zero_of_not_pos hcount

/--
A batch that has waited for its writes is judged by the failures that the session keeps, and leaves
none of them behind.
-/
theorem resume_settling (hx : x.Steady) (hout : x.outstanding = 0) :
    ∃ y, resume p .settling ⟨x, {}⟩ = (.ended (p.judge x.errors.failures), ⟨y, {}⟩)
      ∧ x.Clears y := by
  unfold resume
  simp only
  split
  . exact ⟨x.collect.2, rfl, hx.clears_collect hout⟩
  . next hnone =>
    have hfailures : x.errors.failures = [] := by
      rw [← List.length_eq_zero_iff]
      exact Nat.eq_zero_of_not_pos hnone
    refine ⟨x, ?_, ⟨⟨hx, hout, hfailures⟩, rfl, rfl⟩⟩
    rw [hfailures]
    rfl

end BatchStage

namespace Service

variable {s : Service} {r : SessionRef} {x : Session} {policy : BatchPolicy} {ws : List Write}

@[simp]
theorem awaitBatch_ended (result : Except TransferError Unit) (s : Service) :
    awaitBatch policy r (.ended result, s) = (.ended result, s) := by
  rfl

/--
A batch that waits without an end goes on when the session has applied all its writes.
-/
theorem Holds.awaitBatch (h : s.Holds r x) (hx : x.Exact) (htimeout : policy.timeout? = none)
    (stage : BatchStage) (hstage : ∀ result, stage ≠ .ended result) :
    ∃ s', s.Settles r x s'
      ∧ Service.awaitBatch policy r (stage, s)
        = ((stage.resume policy ⟨x.settled s.store, {}⟩).1,
            s'.setChannel r (stage.resume policy ⟨x.settled s.store, {}⟩).2) := by
  obtain ⟨s', hwait, hsettles⟩ := h.waitDrained hx
  refine ⟨s', hsettles, ?_⟩
  cases stage with
  | ended result => exact absurd rfl (hstage result)
  | clearing ws =>
    simp [Service.awaitBatch, h.channel_eq, htimeout, hwait, hsettles.holds.channel_eq]
  | settling =>
    simp [Service.awaitBatch, h.channel_eq, htimeout, hwait, hsettles.holds.channel_eq]

/--
The service after a batch on the session `x` in it has applied its writes to `store`.
-/
structure Applies (x : Session) (store : Store) (r : SessionRef) (ws : List Write)
    (s' : Service) : Prop where
  store_eq : s'.store = store.appliedAll ws
  holds : ∃ y, s'.Holds r y ∧ x.Clears y

theorem Holds.awaitBatch_settling (h : s.Holds r (x.enqueue ws)) (hx : x.Clean)
    (htimeout : policy.timeout? = none) :
    ∃ s', Applies x s.store r ws s'
      ∧ Service.awaitBatch policy r (.settling, s)
        = (.ended (policy.judge (x.kept s.store ws)), s') := by
  obtain ⟨s', hsettles, hawait⟩ :=
    h.awaitBatch (hx.steady.enqueue ws).exact htimeout .settling (by simp)
  obtain ⟨y, hresume, hclears⟩ :=
    BatchStage.resume_settling (p := policy) (Session.steady_settled (x.enqueue ws) s.store) rfl
  refine ⟨s'.setChannel r ⟨y, {}⟩, ⟨?_, y, hsettles.holds.setChannel y, ?_⟩, ?_⟩
  . rw [store_setChannel, hsettles.store_eq, Session.todo_enqueue, hx.todo_eq, List.nil_append]
  . exact ⟨hclears.clean, hclears.settings_eq, hclears.closed_eq⟩
  . rw [hawait, hresume, hx.settled_enqueue]

theorem Holds.applyBatch_of_sent (h : s.Holds r x) (hx : x.Clean) (htimeout : policy.timeout? = none)
    (hsent : BatchStage.submit ws ⟨x, {}⟩ = (.settling, ⟨x.enqueue ws, {}⟩)) :
    ∃ s', Applies x s.store r ws s'
      ∧ s.applyBatch policy r ws = (policy.judge (x.kept s.store ws), s') := by
  obtain ⟨s', happlies, hawait⟩ :=
    (h.setChannel (x.enqueue ws)).awaitBatch_settling hx htimeout
  rw [store_setChannel] at happlies hawait
  refine ⟨s', happlies, ?_⟩
  unfold Service.applyBatch
  rw [h.channel_eq, BatchStage.start_of_clean hx, hsent]
  simp only [hawait, awaitBatch_ended]

theorem Holds.applyBatch_of_clean (h : s.Holds r x) (hx : x.Clean) (hopen : x.closed = false)
    (htimeout : policy.timeout? = none) (ws : List Write) :
    ∃ s', Applies x s.store r ws s'
      ∧ s.applyBatch policy r ws = (policy.judge (x.kept s.store ws), s') :=
  h.applyBatch_of_sent hx htimeout (BatchStage.submit_of_open hopen ws)

/--
A batch on a session with whatever is outstanding or kept first waits until all of that is gone. If
the session is closed, it then cannot send its writes.
-/
theorem Holds.applyBatch_cases (h : s.Holds r x) (hx : x.Exact) (htimeout : policy.timeout? = none)
    (ws : List Write) :
    ((x.closed = true → ws = [])
        ∧ ∃ s', Applies x (s.store.appliedAll x.todo) r ws s'
          ∧ s.applyBatch policy r ws
            = (policy.judge (x.kept (s.store.appliedAll x.todo) ws), s'))
      ∨ (x.closed = true ∧ ws ≠ []
        ∧ ∃ s', s'.store = s.store.appliedAll x.todo
          ∧ s.applyBatch policy r ws = (.error (.store .sessionClosed), s')) := by
  by_cases hclean : x.Clean
  . rw [hclean.todo_eq, Store.appliedAll_nil]
    rcases BatchStage.submit_cases x ws with ⟨hopen, hsent⟩ | ⟨hclosed, hws, hnone⟩
    . exact .inl ⟨hopen, h.applyBatch_of_sent hclean htimeout hsent⟩
    . refine .inr ⟨hclosed, hws, s.setChannel r ⟨x, {}⟩, store_setChannel .., ?_⟩
      unfold Service.applyBatch
      rw [h.channel_eq, BatchStage.start_of_clean hclean, hnone]
      simp only [awaitBatch_ended]
  . -- the first wait is for what was outstanding, the second one for the batch
    have hclears := Session.clears_collect_settled x s.store
    obtain ⟨s₁, hsettles, hclearing⟩ :=
      (h.setChannel x).awaitBatch hx htimeout (.clearing ws) (by simp)
    rw [store_setChannel] at hclearing
    have hresume : BatchStage.resume policy (.clearing ws) ⟨x.settled s.store, {}⟩
        = BatchStage.submit ws ⟨(x.settled s.store).collect.2, {}⟩ := rfl
    rcases BatchStage.submit_cases (x.settled s.store).collect.2 ws
      with ⟨hopen, hsent⟩ | ⟨hclosed, hws, hnone⟩
    . have hholds := hsettles.holds.setChannel ((x.settled s.store).collect.2.enqueue ws)
      obtain ⟨s', happlies, hsettling⟩ := hholds.awaitBatch_settling hclears.clean htimeout
      rw [store_setChannel, hsettles.store_eq, store_setChannel] at happlies hsettling
      refine .inl ⟨hopen, s', ?_, ?_⟩
      . obtain ⟨hstore, y, hy, hclears'⟩ := happlies
        exact ⟨hstore, y, hy, hclears.trans hclears'⟩
      . unfold Service.applyBatch
        rw [h.channel_eq, BatchStage.start_of_not_clean hx hclean]
        simp only [hclearing, hresume, hsent, hsettling]
        rfl
    . refine .inr ⟨hclosed, hws, s₁.setChannel r ⟨(x.settled s.store).collect.2, {}⟩, ?_, ?_⟩
      . rw [store_setChannel, hsettles.store_eq, store_setChannel]
      . unfold Service.applyBatch
        rw [h.channel_eq, BatchStage.start_of_not_clean hx hclean]
        simp only [hclearing, hresume, hnone, awaitBatch_ended]

theorem Holds.applyBatch (h : s.Holds r x) (hx : x.Exact) (hopen : x.closed = false)
    (htimeout : policy.timeout? = none) (ws : List Write) :
    ∃ s', Applies x (s.store.appliedAll x.todo) r ws s'
      ∧ s.applyBatch policy r ws
        = (policy.judge (x.kept (s.store.appliedAll x.todo) ws), s') := by
  rcases h.applyBatch_cases hx htimeout ws with ⟨-, happlied⟩ | ⟨hclosed, -⟩
  . exact happlied
  . rw [hopen] at hclosed
    contradiction

end Service

end KeyedTables
