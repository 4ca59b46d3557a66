import KeyedTables.Proofs.Session.Accepted
import KeyedTables.Proofs.Session.Timeouts

/-!
This module contains the schedule of a service. Its clock decides when the flusher takes its steps and
when the time of a batch is up. Whatever it decides, a batch on a session that no other session gets
in the way of takes steps of the batch and of the flusher, as any batch on a shared session does.
-/

namespace KeyedTables

theorem Session.Steady.hasPending_eq_false {x : Session} (hx : x.Steady) (h : x.todo = []) :
    x.hasPending = false := by
  rw [hx.hasPending_eq, h]
  rfl

namespace BatchStage

theorem result?_eq_none {stage : BatchStage} (h : ∀ result, stage = .ended result → False) :
    stage.result? = none := by
  cases stage with
  | ended result => exact absurd rfl (h result)
  | _ => rfl

/--
How often a batch at a stage still waits at most.
-/
def remaining : BatchStage → Nat
  | .clearing _ => 2
  | .settling => 1
  | .ended _ => 0

theorem remaining_submit_le (ws : List Write) (c : Channel) : (submit ws c).1.remaining ≤ 1 := by
  unfold submit
  split
  . exact Nat.le_refl 1
  . exact Nat.zero_le 1

theorem remaining_start_le (ws : List Write) (c : Channel) : (start ws c).1.remaining ≤ 2 := by
  unfold start
  split
  . exact Nat.le_refl 2
  . exact Nat.le_succ_of_le (remaining_submit_le ws c)

theorem remaining_resume_le (p : BatchPolicy) (stage : BatchStage) (c : Channel) :
    (resume p stage c).1.remaining ≤ stage.remaining - 1 := by
  cases stage with
  | clearing ws => exact remaining_submit_le ws _
  | settling =>
    unfold resume
    dsimp only
    split <;> exact Nat.le_refl 0
  | ended result => exact Nat.le_refl 0

theorem gate_submit (ws : List Write) (x : Session) : (submit ws ⟨x, {}⟩).2.gate = {} := by
  rcases submit_cases x ws with ⟨-, hsent⟩ | ⟨-, -, hnone⟩
  . rw [hsent]
  . rw [hnone]

theorem gate_start (ws : List Write) (x : Session) : (start ws ⟨x, {}⟩).2.gate = {} := by
  unfold start
  split
  . rfl
  . exact gate_submit ws x

theorem gate_resume (p : BatchPolicy) (stage : BatchStage) (x : Session) :
    (resume p stage ⟨x, {}⟩).2.gate = {} := by
  cases stage with
  | clearing ws => exact gate_submit ws _
  | settling =>
    unfold resume
    dsimp only
    split <;> rfl
  | ended result => rfl

end BatchStage

namespace Sharing

variable {ι : Type} [DecidableEq ι]

def Reaches (batches : ι → Batch) (admits : Sharing ι → ι → Prop) (s t : Sharing ι) : Prop :=
  ∃ trace, Run batches admits s trace t

/--
The flusher alone comes from one state to the other.
-/
structure Flushes (batches : ι → Batch) (admits : Sharing ι → ι → Prop) (s t : Sharing ι) :
    Prop where
  reaches : Reaches batches admits s t
  stage?_eq : t.stage? = s.stage?

variable {batches : ι → Batch} {admits : Sharing ι → ι → Prop} {s t u : Sharing ι}

theorem Reaches.trans (hfirst : Reaches batches admits s t) (hsecond : Reaches batches admits t u) :
    Reaches batches admits s u := by
  obtain ⟨trace, hfirst⟩ := hfirst
  obtain ⟨trace', hsecond⟩ := hsecond
  exact ⟨trace ++ trace', hfirst.append hsecond⟩

theorem Step.reaches {e : SharingEvent ι} (hstep : Step batches admits s e t) :
    Reaches batches admits s t :=
  ⟨[e], .cons hstep (.nil t)⟩

theorem Reaches.sound {x : Session} (hreaches : Reaches batches admits s t)
    (h : Sound batches x s) : Sound batches x t := by
  obtain ⟨trace, hrun⟩ := hreaches
  exact hrun.sound h

theorem flushes_refl (s : Sharing ι) : Flushes batches admits s s :=
  ⟨⟨[], .nil s⟩, rfl⟩

theorem Flushes.trans (hfirst : Flushes batches admits s t) (hsecond : Flushes batches admits t u) :
    Flushes batches admits s u :=
  ⟨hfirst.reaches.trans hsecond.reaches, hsecond.stage?_eq.trans hfirst.stage?_eq⟩

theorem flushes_of_step {e : SessionEvent} {t : Traffic}
    (hstep : Traffic.Step ⟨s.session, s.store, []⟩ e t) (hflusher : e.isOfFlusher = true) :
    Flushes batches admits s { s with session := t.session, store := t.store } :=
  ⟨(Step.flush hstep hflusher).reaches, rfl⟩

theorem flushes_take (s : Sharing ι) :
    Flushes batches admits s { s with session := s.session.take } := by
  cases hflusher : s.session.flusher with
  | idle =>
    cases hqueue : s.session.queue with
    | nil =>
      have hnone : s.session.take = s.session := by simp [Session.take, hflusher, hqueue]
      rw [hnone]
      exact flushes_refl s
    | cons w ws => exact flushes_of_step (.take hflusher hqueue) rfl
  | holding w =>
    have hnone : s.session.take = s.session := by simp [Session.take, hflusher]
    rw [hnone]
    exact flushes_refl s
  | finishing =>
    have hnone : s.session.take = s.session := by simp [Session.take, hflusher]
    rw [hnone]
    exact flushes_refl s

theorem flushes_finish (s : Sharing ι) :
    Flushes batches admits s { s with session := s.session.finish } := by
  by_cases hfinishing : s.session.flusher = .finishing
  . exact flushes_of_step (.finish hfinishing) rfl
  . rw [Session.finish_of_ne hfinishing]
    exact flushes_refl s

theorem flushes_complete {w : Write} (hholds : s.session.flusher = .holding w) :
    Flushes batches admits s
      { s with
        session := (s.session.complete s.store).1
        store := (s.session.complete s.store).2 } := by
  have hfinishing : (s.session.perform s.store).1.flusher = .finishing := by
    cases happly : s.store.apply w with
    | ok store' => rw [Session.perform_of_ok hholds happly]
    | error status => rw [Session.perform_of_error hholds happly]
  have hperform : Flushes batches admits s
      { s with
        session := (s.session.perform s.store).1
        store := (s.session.perform s.store).2 } := by
    cases happly : s.store.apply w with
    | ok store' => exact flushes_of_step (.accept hholds happly) rfl
    | error status => exact flushes_of_step (.reject hholds happly) rfl
  exact hperform.trans (flushes_of_step (.finish hfinishing) rfl)

end Sharing

/--
The service has the store of a shared session, and the reference reaches that session.
-/
structure Service.Shows {ι : Type} (s : Service) (r : SessionRef) (a : Sharing ι) : Prop where
  holds : s.Holds r a.session
  exact : a.session.Exact
  store_eq : s.store = a.store

theorem Service.Shows.with_clock {ι : Type} {s : Service} {r : SessionRef} {a : Sharing ι}
    (h : s.Shows r a) (clock : Nat) : Service.Shows { s with clock := clock } r a :=
  ⟨⟨h.holds.slot, h.holds.gate, h.holds.others⟩, h.exact, h.store_eq⟩

namespace Service

open Sharing

variable {ι : Type} [DecidableEq ι] {batches : ι → Batch} {admits : Sharing ι → ι → Prop}
variable {s : Service} {r : SessionRef} {a b : Sharing ι} {x : Session} {i : ι}

/-!
# Waits
-/

/--
The flusher alone has taken steps until somebody who waits was woken up, either because nothing is
outstanding or because the wait was limited.
-/
def Waited (batches : ι → Batch) (admits : Sharing ι → ι → Prop) (r : SessionRef) (a : Sharing ι)
    (limited : Prop) (p : Wake × Service) : Prop :=
  ∃ b, Flushes batches admits a b ∧ p.2.Shows r b
    ∧ match p.1 with
      | .drained => b.session.hasPending = false
      | .expired => limited

theorem Shows.runUntil (h : s.Shows r a) (hsteady : a.session.Steady)
    (htaken : a.session.take = a.session) (deadline? : Option Nat) {fuel : Nat} (hfuel : a.session.todo.length ≤ fuel) :
    Waited batches admits r a (deadline? ≠ none)
      (Service.runUntil (some r.slot) deadline? fuel s) := by
  -- the flusher has taken a write whenever there is one, and each step of fuel applies one
  induction fuel generalizing s a with
  | zero =>
    have hpending := hsteady.hasPending_eq_false
      (List.eq_nil_of_length_eq_zero (Nat.eq_zero_of_le_zero hfuel))
    refine ⟨a, flushes_refl a, ?_⟩
    simp [Service.runUntil, rest, h.holds.isDrained_eq, hpending, h]
  | succ fuel ih =>
    unfold Service.runUntil
    cases htodo : a.session.todo with
    | nil =>
      have hpending := hsteady.hasPending_eq_false htodo
      refine ⟨a, flushes_refl a, ?_⟩
      rw [h.holds.earliest?_of_todo htodo]
      simp [rest, h.holds.isDrained_eq, hpending, h]
    | cons w ws =>
      have hholding : a.session.flusher = .holding w := by
        rw [← htaken]
        exact Session.holding_of_todo_take hsteady htodo
      have hpending : a.session.hasPending = true := by
        rw [hsteady.hasPending_eq, htodo]
        simp
      obtain ⟨due, hearliest⟩ := h.holds.earliest?_of_holding hholding
      obtain ⟨hholds, hstore⟩ := h.holds.completeAt due
      rw [h.store_eq] at hholds hstore
      obtain ⟨c, hc⟩ : ∃ c : Sharing ι, c =
          { a with
            session := (a.session.complete a.store).1.take
            store := (a.session.complete a.store).2 } := ⟨_, rfl⟩
      have hflushes : Flushes batches admits a c := by
        rw [hc]
        exact (flushes_complete hholding).trans (flushes_take _)
      have hcsteady : c.session.Steady := by
        rw [hc]
        exact Session.steady_take (Session.steady_complete hsteady hholding)
      have hshows : (s.completeAt r.slot due).Shows r c := by
        refine ⟨?_, hcsteady.exact, ?_⟩ <;> rw [hc]
        . exact hholds
        . exact hstore
      have hlength : c.session.todo.length ≤ fuel := by
        rw [Session.todo_of_holding hholding, List.length_cons] at hfuel
        rw [hc, Session.todo_take, Session.todo_complete hholding]
        omega
      obtain ⟨b, hrest, hb⟩ := ih hshows hcsteady (by rw [hc]; exact Session.take_take _) hlength
      rw [hearliest]
      simp only [Option.map_some, Option.getD_some, h.holds.isDrained_eq, hpending]
      cases deadline? with
      | none => exact ⟨b, hflushes.trans hrest, hb⟩
      | some deadline =>
        simp only
        split
        . contradiction
        . split
          . exact ⟨a, flushes_refl a, h.with_clock _, by simp⟩
          . exact ⟨b, hflushes.trans hrest, hb⟩

theorem Shows.waitDrained (h : s.Shows r a) (limit? : Option Nat) :
    Waited batches admits r a (limit? ≠ none) (s.waitDrained r.slot limit?) := by
  unfold Service.waitDrained
  split
  . next hdrained =>
    rw [h.holds.isDrained_eq, Bool.not_eq_true'] at hdrained
    exact ⟨a, flushes_refl a, h, hdrained⟩
  . have hsteady : a.session.finish.take.Steady := Session.steady_take h.exact.steady_finish
    have hbegun : s.beginAll.Shows r { a with session := a.session.finish.take } :=
      ⟨h.holds.beginAll, hsteady.exact, h.store_eq⟩
    obtain ⟨b, hrest, hshows, hwake⟩ := hbegun.runUntil hsteady
      (Session.take_take _) (limit?.map (s.clock + ·)) hbegun.holds.todo_length_le
    refine ⟨b, ((flushes_finish a).trans (flushes_take _)).trans hrest, hshows, ?_⟩
    rwa [ne_eq, Option.map_eq_none_iff] at hwake

/-!
# Batches
-/

theorem remaining_awaitBatch_le (policy : BatchPolicy) (r : SessionRef) (p : BatchStage × Service) :
    (Service.awaitBatch policy r p).1.remaining ≤ p.1.remaining - 1 := by
  fun_cases Service.awaitBatch policy r p
  case case1 => exact Nat.le_refl 0
  case case2 => exact Nat.zero_le _
  case case3 => exact Nat.zero_le _
  case case4 stage s hwaits hgate wake s' hwait stage' c hresume hunlimited =>
    have := BatchStage.remaining_resume_le policy stage (s'.channel r)
    rwa [hresume] at this

/--
The batch `i` and the flusher have come from `a` to where the batch is at the stage, as it is on the
service.
-/
structure Went (batches : ι → Batch) (admits : Sharing ι → ι → Prop) (r : SessionRef) (i : ι)
    (a b : Sharing ι) (p : BatchStage × Service) : Prop where
  reaches : Reaches batches admits a b
  shows : p.2.Shows r b
  stage?_eq : b.stage? i = some p.1
  others : ∀ j ≠ i, b.stage? j = a.stage? j

theorem Shows.advance {c : Channel} {stage : BatchStage} {ws : List Write} (h : s.Shows r a)
    (hsound : Sound batches x a)
    (hstep : Step batches admits a (.went i stage ws) (a.advance i stage c.session))
    (hgate : c.gate = {}) :
    Went batches admits r i a (a.advance i stage c.session) (stage, s.setChannel r c) := by
  obtain ⟨session, gate⟩ := c
  cases hgate
  constructor
  case reaches => exact hstep.reaches
  case shows =>
    refine ⟨h.holds.setChannel session, (hsound.step hstep).exact, ?_⟩
    rw [store_setChannel]
    exact h.store_eq
  case stage?_eq => exact stage?_advance_self
  case others =>
    intro j hj
    exact stage?_advance_of_ne hj

theorem Went.of_flushes {c : Sharing ι} {p : BatchStage × Service}
    (hflushes : Flushes batches admits a b) (hwent : Went batches admits r i b c p) :
    Went batches admits r i a c p := by
  refine ⟨hflushes.reaches.trans hwent.reaches, hwent.shows, hwent.stage?_eq, ?_⟩
  intro j hj
  rw [hwent.others j hj, hflushes.stage?_eq]

/--
A batch that waits goes on when nothing is outstanding, or its time is up before that.
-/
theorem Shows.awaitBatch {p : BatchStage × Service} (h : p.2.Shows r a)
    (hsound : Sound batches x a) (hstage : a.stage? i = some p.1) :
    ∃ b, Went batches admits r i a b (Service.awaitBatch (batches i).policy r p) := by
  obtain ⟨b, hflushes, hshows, hwake⟩ : Waited batches admits r a _ _ :=
    h.waitDrained ((batches i).policy.timeout?.map Duration.ticks)
  have hbsound := hflushes.reaches.sound hsound
  rw [← hflushes.stage?_eq] at hstage
  fun_cases Service.awaitBatch (batches i).policy r p
  case case1 => exact ⟨a, ⟨[], .nil a⟩, h, by rw [← hflushes.stage?_eq, hstage], fun j hj => rfl⟩
  case case2 stage s hwaits e hgate =>
    rw [h.holds.channel_eq] at hgate
    contradiction
  case case3 stage s hwaits hgate s' timeout htimeout hwait =>
    rw [hwait] at hshows
    have hexpire : Step batches admits b (.went i (.expired timeout) [])
        (b.advance i (.expired timeout) b.session) :=
      .expire hstage (BatchStage.result?_eq_none hwaits) htimeout
    refine ⟨_, .of_flushes hflushes ⟨hexpire.reaches, ?_, stage?_advance_self, ?_⟩⟩
    . exact ⟨hshows.holds, hshows.exact, hshows.store_eq⟩
    . intro j hj
      exact stage?_advance_of_ne hj
  case case4 stage s hwaits hgate wake s' hwait stage' c hresume hunlimited =>
    rw [hwait] at hshows hwake
    cases wake with
    | expired =>
      rw [ne_eq, Option.map_eq_none_iff] at hwake
      obtain ⟨timeout, htimeout⟩ := Option.ne_none_iff_exists'.1 hwake
      exact absurd rfl (hunlimited timeout htimeout)
    | drained =>
      rw [hshows.holds.channel_eq] at hresume
      have hgate : c.gate = {} := by
        have := BatchStage.gate_resume (batches i).policy stage b.session
        rwa [hresume] at this
      exact ⟨_, .of_flushes hflushes (hshows.advance hbsound
        (.resume hstage (BatchStage.result?_eq_none hwaits) hwake hresume) hgate)⟩

theorem Went.awaitBatch {p : BatchStage × Service} (hwent : Went batches admits r i a b p)
    (hsound : Sound batches x a) :
    ∃ c, Went batches admits r i a c (Service.awaitBatch (batches i).policy r p) := by
  obtain ⟨c, hrest⟩ : ∃ c, Went batches admits r i b c
      (Service.awaitBatch (batches i).policy r p) :=
    hwent.shows.awaitBatch (hwent.reaches.sound hsound) hwent.stage?_eq
  refine ⟨c, hwent.reaches.trans hrest.reaches, hrest.shows, hrest.stage?_eq, ?_⟩
  intro j hj
  rw [hrest.others j hj, hwent.others j hj]

/--
A batch that the service applies takes steps of a batch on a shared session until it returns.
-/
theorem Shows.applyBatch (h : s.Shows r a) (hsound : Sound batches x a) (hnew : a.stage? i = none)
    (hadmits : admits a i) :
    ∃ b, Went batches admits r i a b
      (.ended (s.applyBatch (batches i).policy r (batches i).writes).1,
        (s.applyBatch (batches i).policy r (batches i).writes).2) := by
  obtain ⟨stage, c, hstart⟩ : ∃ stage c,
      BatchStage.start (batches i).writes ⟨a.session, {}⟩ = (stage, c) := ⟨_, _, rfl⟩
  have hgate := BatchStage.gate_start (batches i).writes a.session
  rw [hstart] at hgate
  obtain ⟨b, hfirst⟩ := (h.advance hsound (.start hnew hadmits hstart) hgate).awaitBatch hsound
  obtain ⟨b', hsecond⟩ := hfirst.awaitBatch hsound
  refine ⟨b', ?_⟩
  -- the batch waits at most twice, so it has returned
  have hreturned : (Service.awaitBatch (batches i).policy r
      (Service.awaitBatch (batches i).policy r (stage, s.setChannel r c))).1.remaining = 0 := by
    have hstarted := BatchStage.remaining_start_le (batches i).writes ⟨a.session, {}⟩
    have honce := remaining_awaitBatch_le (batches i).policy r (stage, s.setChannel r c)
    have htwice := remaining_awaitBatch_le (batches i).policy r
      (Service.awaitBatch (batches i).policy r (stage, s.setChannel r c))
    rw [hstart] at hstarted
    dsimp only at hstarted honce
    omega
  rcases hawait : Service.awaitBatch (batches i).policy r
    (Service.awaitBatch (batches i).policy r (stage, s.setChannel r c)) with ⟨final, s'⟩
  rw [hawait] at hsecond hreturned
  cases final with
  | ended result =>
    have happly : s.applyBatch (batches i).policy r (batches i).writes = (result, s') := by
      unfold Service.applyBatch
      rw [h.holds.channel_eq, hstart]
      simp only [hawait]
    rw [happly]
    exact hsecond
  | clearing ws => contradiction
  | settling => contradiction

/-!
# Batches one after the other
-/

def applyBatches (r : SessionRef) : Service → List Batch → List (Except TransferError Unit) × Service
  | s, [] => ([], s)
  | s, b :: bs =>
    let (result, s) := s.applyBatch b.policy r b.writes
    let (results, s) := applyBatches r s bs
    (result :: results, s)

theorem Shows.applyBatches {batches : Nat → Batch} {a : Sharing Nat} {bs : List Batch} {n : Nat}
    (h : s.Shows r a) (hsound : Sound batches x a)
    (hbatches : ∀ k b, bs[k]? = some b → batches (n + k) = b)
    (hnew : ∀ j ≥ n, a.stage? j = none) (hended : a.OneByOne n) :
    ∃ b, Reaches batches OneByOne a b ∧ (s.applyBatches r bs).2.Shows r b
      ∧ (∀ j < n, b.stage? j = a.stage? j)
      ∧ ∀ k result, (s.applyBatches r bs).1[k]? = some result →
        b.stage? (n + k) = some (.ended result) := by
  induction bs generalizing s a n with
  | nil => exact ⟨a, ⟨[], .nil a⟩, h, fun j hj => rfl, by simp [Service.applyBatches]⟩
  | cons batch bs ih =>
    obtain ⟨b, hwent⟩ := h.applyBatch hsound (hnew n (Nat.le_refl n)) hended
    have hfirst : batches n = batch := hbatches 0 batch rfl
    rw [hfirst] at hwent
    have hlater : ∀ j ≥ n + 1, b.stage? j = none := by
      intro j hj
      rw [hwent.others j (by omega), hnew j (by omega)]
    have hreturned : b.OneByOne (n + 1) := by
      intro j hj
      by_cases hjn : j = n
      . rw [hjn]
        exact ⟨_, hwent.stage?_eq⟩
      . rw [hwent.others j hjn]
        exact hended j (by omega)
    obtain ⟨c, hreaches, hshows, hkept, hresults⟩ := ih hwent.shows (hwent.reaches.sound hsound)
      (fun k b' hk => by rw [← hbatches (k + 1) b' hk]; congr 1; omega) hlater hreturned
    refine ⟨c, hwent.reaches.trans hreaches, hshows, ?_, ?_⟩
    . intro j hj
      rw [hkept j (by omega), hwent.others j (by omega)]
    . intro k result hk
      cases k with
      | zero =>
        simp only [Service.applyBatches, List.getElem?_cons_zero, Option.some.injEq] at hk
        rw [Nat.add_zero, hkept n (Nat.lt_succ_self n), hwent.stage?_eq, hk]
      | succ k =>
        rw [Nat.add_comm k 1, ← Nat.add_assoc]
        exact hresults k result hk

/--
Batches that a service applies on one session, one after the other, are a run of batches on a shared
session. The clock of the service is one of the ways in which their steps and those of the flusher
may come.
-/
theorem Holds.applyBatches_run (h : s.Holds r x) (hx : x.Exact) (bs : List Batch) :
    ∃ trace t, Run (fun i => bs.getD i ⟨{}, []⟩) OneByOne { session := x, store := s.store } trace t
      ∧ (s.applyBatches r bs).2.Holds r t.session ∧ (s.applyBatches r bs).2.store = t.store
      ∧ ∀ i result, (s.applyBatches r bs).1[i]? = some result →
        t.stage? i = some (.ended result) := by
  have hshows : s.Shows r ({ session := x, store := s.store } : Sharing Nat) := ⟨h, hx, rfl⟩
  have hsound : Sound (fun i => bs.getD i ⟨{}, []⟩) x { session := x, store := s.store } :=
    sound_start hx s.store
  have hbatches : ∀ k b, bs[k]? = some b → bs.getD (0 + k) ⟨{}, []⟩ = b := by
    intro k b hk
    rw [Nat.zero_add, List.getD_eq_getElem?_getD, hk]
    rfl
  obtain ⟨t, ⟨trace, hrun⟩, ht, -, hresults⟩ := hshows.applyBatches hsound hbatches
    (fun j hj => rfl) (fun j hj => absurd hj (Nat.not_lt_zero j))
  refine ⟨trace, t, hrun, ht.holds, ht.store_eq, ?_⟩
  intro i result hi
  rw [← hresults i result hi, Nat.zero_add]

end Service

/-!
# One batch
-/

namespace Sharing

variable {admits : Sharing Unit → Unit → Prop} {b : Batch}
variable {x : Session} {store : Store} {s t : Sharing Unit} {e : SharingEvent Unit}
variable {trace : List (SharingEvent Unit)}

/--
How a batch without a timeout ends that nobody else gets in the way of, when `store` is what it finds.
-/
inductive Ends (b : Batch) (x : Session) (store : Store) : Except TransferError Unit → Store → Prop
  where
  | judged (hopen : x.closed = true → b.writes = []) :
    Ends b x store (b.policy.judge (x.kept store b.writes)) (store.appliedAll b.writes)
  | refused (hclosed : x.closed = true) (hne : b.writes ≠ []) :
    Ends b x store (.error (.store .sessionClosed)) store

/--
Where such a batch stands: what its session comes to is settled when it has sent its writes, and it
leaves nothing outstanding.
-/
def Alone (b : Batch) (x : Session) (store : Store) (s : Sharing Unit) : Option BatchStage → Prop
  | none | some (.clearing _) => s.prospect.store = store
  | some .settling => (x.closed = true → b.writes = [])
    ∧ s.prospect = ⟨store.appliedAll b.writes, x.kept store b.writes⟩
  | some (.ended result) => s.session.todo = [] ∧ Ends b x store result s.store

theorem Alone.flush {stage? : Option BatchStage} {event : SessionEvent} {t : Traffic}
    (h : Alone b x store s stage?) (hsound : Sound (fun _ => b) x s)
    (hflush : Traffic.Step ⟨s.session, s.store, []⟩ event t) (hflusher : event.isOfFlusher = true) :
    Alone b x store { s with session := t.session, store := t.store } stage? := by
  have hstep : Step (fun _ => b) (fun _ _ => True) s (.flushed event)
      { s with session := t.session, store := t.store } := .flush hflush hflusher
  have hprospect : prospect { s with session := t.session, store := t.store } = s.prospect :=
    prospect_step hsound hstep
  match stage? with
  | none => exact (congrArg Prospect.store hprospect).trans h
  | some (.clearing ws) => exact (congrArg Prospect.store hprospect).trans h
  | some .settling => exact ⟨h.1, hprospect.trans h.2⟩
  | some (.ended result) =>
    -- there is nothing left that the flusher could apply
    have htodo := Traffic.todo_flush hflush hflusher
    have hstore := Traffic.store_step hflush
    rw [h.1, List.nil_eq, List.append_eq_nil_iff] at htodo
    rw [htodo.1] at hstore
    refine ⟨htodo.2, ?_⟩
    dsimp only
    rw [hstore]
    exact h.2

theorem Alone.store_eq (h : Alone b x store s (s.stage? ())) (hsound : Sound (fun _ => b) x s)
    (hunsent : s.Unsent (fun _ => b) ()) (hdrained : s.session.outstanding = 0) :
    s.store = store := by
  have hprospect : s.prospect.store = store := by
    rcases hunsent with hstage | hstage <;> rwa [hstage] at h
  rwa [hsound.prospect_eq hdrained] at hprospect

theorem Alone.step (h : Alone b x store s (s.stage? ())) (hsound : Sound (fun _ => b) x s)
    (htimeout : b.policy.timeout? = none) (hstep : Step (fun _ => b) admits s e t) :
    Alone b x store t (t.stage? ()) := by
  cases hsound.move hstep with
  | wait hnew hadmits =>
    rw [hnew] at h
    rw [stage?_advance_self]
    exact h
  | send hunsent hadmits hdrained hclears hopen =>
    have hprospect := prospect_step hsound hstep
    rw [hsound.prospect_eq hdrained, h.store_eq hsound hunsent hdrained] at hprospect
    rw [hsound.closed_eq] at hopen
    rw [stage?_advance_self]
    exact ⟨hopen, hprospect⟩
  | refuse hunsent hadmits hdrained hclears hclosed hne =>
    rw [hsound.closed_eq] at hclosed
    rw [stage?_advance_self]
    refine ⟨hclears.clean.todo_eq, ?_⟩
    rw [store_advance, h.store_eq hsound hunsent hdrained]
    exact .refused hclosed hne
  | judge hsettling hdrained hclears =>
    rw [hsettling] at h
    obtain ⟨hopen, hprospect⟩ := h
    rw [hsound.prospect_eq hdrained, Prospect.mk.injEq] at hprospect
    rw [stage?_advance_self]
    refine ⟨hclears.clean.todo_eq, ?_⟩
    rw [store_advance, hprospect.1, hprospect.2]
    exact .judged hopen
  | expire hstage hwaits htimeout' =>
    rw [htimeout] at htimeout'
    contradiction
  | flush hflush hflusher => exact h.flush hsound hflush hflusher

theorem Alone.run (h : Alone b x store s (s.stage? ())) (hsound : Sound (fun _ => b) x s)
    (htimeout : b.policy.timeout? = none) (hrun : Run (fun _ => b) admits s trace t) :
    Alone b x store t (t.stage? ()) := by
  induction hrun with
  | nil s => exact h
  | cons hstep _ ih => exact ih (h.step hsound htimeout hstep) (hsound.step hstep)

end Sharing

/--
However the steps of a batch without a timeout and those of the flusher come, the batch has the
result, and leaves the store, that it has when a service applies it.
-/
theorem Service.Holds.applyBatch_of_run {s : Service} {r : SessionRef} {x : Session} {b : Batch}
    {admits : Sharing Unit → Unit → Prop} {trace : List (SendingEvent Unit)} {t : Sending Unit}
    {result : Except TransferError Unit} (h : s.Holds r x) (hx : x.Exact)
    (htimeout : b.policy.timeout? = none)
    (hrun : Sending.Run (fun _ => b) admits ⟨⟨x, s.store, []⟩, fun _ => none⟩ trace t)
    (hended : t.stage? () = some (.rests (.ended result))) :
    (s.applyBatch b.policy r b.writes).1 = result
      ∧ (s.applyBatch b.policy r b.writes).2.store = t.traffic.store := by
  obtain ⟨es, c, pending, hshared, hshadows, -, -⟩ := hrun.shadowed hx
  have hsound : Sharing.Sound (fun _ => b) x ({ session := x, store := s.store } : Sharing Unit) :=
    Sharing.sound_start hx s.store
  have hfound : Sharing.Alone b x (s.store.appliedAll x.todo)
      { session := x, store := s.store } none := rfl
  have halone := hfound.run hsound htimeout hshared
  rw [hshadows.stage?_eq hended] at halone
  obtain ⟨-, hends⟩ := halone
  rw [hshadows.store_eq] at hends
  generalize t.traffic.store = final at hends ⊢
  rcases h.applyBatch_cases hx htimeout b.writes
    with ⟨hopen, s', happlies, happly⟩ | ⟨hclosed, hne, s', hstore, happly⟩
  . rw [happly, happlies.store_eq]
    cases hends with
    | judged => exact ⟨rfl, rfl⟩
    | refused hclosed hne => exact absurd (hopen hclosed) hne
  . rw [happly, hstore]
    cases hends with
    | judged hopen => exact absurd (hopen hclosed) hne
    | refused => exact ⟨rfl, rfl⟩

end KeyedTables
