import KeyedTables.Proofs.Session.Sharing

/-!
This module contains the course of a batch among others on one session. It waits first if it has to,
then it sends its writes, and then it returns. If it returns without having sent them, then the
session is closed, or its time was up while it waited.
-/

namespace KeyedTables

namespace SharingEvent

variable {ι : Type}

def caller? : SharingEvent ι → Option ι
  | .went i _ _ => some i
  | .flushed _ => none

/--
The batch that sends its writes.
-/
def sender? : SharingEvent ι → Option ι
  | .went i .settling _ => some i
  | _ => none

end SharingEvent

namespace Sharing

variable {ι : Type}

def waits (batches : ι → Batch) (i : ι) : SharingEvent ι :=
  .went i (.clearing (batches i).writes) []

def sends (batches : ι → Batch) (i : ι) : SharingEvent ι :=
  .went i .settling (batches i).writes

def ends (i : ι) (result : Except TransferError Unit) : SharingEvent ι :=
  .went i (.ended result) []

/--
What a batch at a stage may still do until it returns the result, on a session that is as closed as
`x` is.
-/
inductive Course (batches : ι → Batch) (x : Session) (i : ι) (result : Except TransferError Unit) :
    Option BatchStage → List (SharingEvent ι) → Prop where
  | returned : Course batches x i result (some (.ended result)) []
  | settling : Course batches x i result (some .settling) [ends i result]
  | send {stage? : Option BatchStage}
    (hunsent : stage? = none ∨ stage? = some (.clearing (batches i).writes)) :
    Course batches x i result stage? [sends batches i, ends i result]
  | refused {stage? : Option BatchStage}
    (hunsent : stage? = none ∨ stage? = some (.clearing (batches i).writes))
    (hclosed : x.closed = true) (hresult : result = .error (.store .sessionClosed)) :
    Course batches x i result stage? [ends i result]
  | expired {ws : List Write} {timeout : Duration}
    (htimeout : (batches i).policy.timeout? = some timeout)
    (hresult : .ended result = BatchStage.expired timeout) :
    Course batches x i result (some (.clearing ws)) [ends i result]
  | wait {es : List (SharingEvent ι)}
    (hrest : Course batches x i result (some (.clearing (batches i).writes)) es) :
    Course batches x i result none (waits batches i :: es)

variable {batches : ι → Batch} {x : Session} {i : ι} {result : Except TransferError Unit}

theorem Course.of_ended {result' : Except TransferError Unit} {es : List (SharingEvent ι)}
    (h : Course batches x i result (some (.ended result')) es) : result' = result ∧ es = [] := by
  cases h with
  | returned => exact ⟨rfl, rfl⟩
  | send hunsent => simp at hunsent
  | refused hunsent hclosed hresult => simp at hunsent

theorem Course.of_settling {es : List (SharingEvent ι)}
    (h : Course batches x i result (some .settling) es) : es = [ends i result] := by
  cases h with
  | settling => rfl
  | send hunsent => simp at hunsent
  | refused hunsent hclosed hresult => simp at hunsent

variable [DecidableEq ι]

def stepsOf (i : ι) (trace : List (SharingEvent ι)) : List (SharingEvent ι) :=
  trace.filter fun e => e.caller? = some i

/--
The batches that send their writes, in the order in which they do.
-/
def senders (trace : List (SharingEvent ι)) : List ι :=
  trace.filterMap SharingEvent.sender?

variable {admits : Sharing ι → ι → Prop} {s t : Sharing ι} {e : SharingEvent ι}
variable {trace : List (SharingEvent ι)}

theorem stepsOf_cons_self (hcaller : e.caller? = some i) (trace : List (SharingEvent ι)) :
    stepsOf i (e :: trace) = e :: stepsOf i trace := by
  unfold stepsOf
  rw [List.filter_cons_of_pos (by simpa using hcaller)]

theorem stepsOf_cons_of_ne (hcaller : e.caller? ≠ some i) (trace : List (SharingEvent ι)) :
    stepsOf i (e :: trace) = stepsOf i trace := by
  unfold stepsOf
  rw [List.filter_cons_of_neg (by simpa using hcaller)]

theorem ended_step (h : Sound batches x s) (hstep : Step batches admits s e t)
    (hended : s.stage? i = some (.ended result)) : t.stage? i = some (.ended result) := by
  have hother : ∀ {j stage y}, s.stage? j ≠ some (.ended result) →
      (s.advance j stage y).stage? i = some (.ended result) := by
    intro j stage y hj
    rw [stage?_advance_of_ne, hended]
    rintro rfl
    exact hj hended
  cases h.move hstep with
  | wait hnew hadmits => exact hother (by simp [hnew])
  | send hunsent hadmits hdrained hclears =>
    apply hother
    rcases hunsent with hstage | hstage <;> simp [hstage]
  | refuse hunsent hadmits hdrained hclears hclosed =>
    apply hother
    rcases hunsent with hstage | hstage <;> simp [hstage]
  | judge hsettling hdrained hclears => exact hother (by simp [hsettling])
  | expire hstage hwaits htimeout =>
    apply hother
    rw [hstage]
    rintro ⟨⟩
    contradiction
  | flush hflush hflusher => exact hended

theorem Run.ended (h : Sound batches x s) (hrun : Run batches admits s trace t)
    (hended : s.stage? i = some (.ended result)) : t.stage? i = some (.ended result) := by
  induction hrun with
  | nil s => exact hended
  | cons hstep _ ih => exact ih (h.step hstep) (ended_step h hstep hended)

theorem Run.result_eq {result' : Except TransferError Unit} (h : Sound batches x s)
    (hrun : Run batches admits s trace t) (hreturned : s.stage? i = some (.ended result'))
    (hended : t.stage? i = some (.ended result)) : result = result' := by
  have hkept := hrun.ended h hreturned
  rwa [hended, Option.some.injEq, BatchStage.ended.injEq] at hkept

/--
Whatever else happens on the session, a batch that has returned has gone one of these courses.
-/
theorem Run.course (h : Sound batches x s) (hrun : Run batches admits s trace t)
    (hended : t.stage? i = some (.ended result)) :
    Course batches x i result (s.stage? i) (stepsOf i trace) := by
  induction hrun with
  | nil s =>
    rw [hended]
    exact .returned
  | @cons s u t e trace hstep hrun ih =>
    have hrest := ih (h.step hstep) hended
    -- a step of another batch leaves the stage of this one as it is
    have hother : ∀ {j stage ws y}, e = .went j stage ws → u = s.advance j stage y → i ≠ j →
        Course batches x i result (s.stage? i) (stepsOf i (e :: trace)) := by
      rintro j stage ws y rfl rfl hne
      rw [stage?_advance_of_ne hne] at hrest
      rwa [stepsOf_cons_of_ne (by simpa [SharingEvent.caller?] using Ne.symm hne)]
    -- a step of this batch is followed by what it does from its new stage
    have hself : ∀ {stage ws y}, e = .went i stage ws → u = s.advance i stage y →
        Course batches x i result (some stage) (stepsOf i trace)
          ∧ stepsOf i (e :: trace) = .went i stage ws :: stepsOf i trace := by
      rintro stage ws y rfl rfl
      rw [stage?_advance_self] at hrest
      exact ⟨hrest, stepsOf_cons_self rfl trace⟩
    cases h.move hstep with
    | @wait j hnew hadmits =>
      by_cases hij : i = j
      . subst hij
        obtain ⟨hcourse, hsteps⟩ := hself rfl rfl
        rw [hnew, hsteps]
        exact .wait hcourse
      . exact hother rfl rfl hij
    | @send j y hunsent hadmits hdrained hclears =>
      by_cases hij : i = j
      . subst hij
        obtain ⟨hcourse, hsteps⟩ := hself rfl rfl
        rw [hsteps, hcourse.of_settling]
        exact .send hunsent
      . exact hother rfl rfl hij
    | @refuse j y hunsent hadmits hdrained hclears hclosed =>
      by_cases hij : i = j
      . subst hij
        obtain ⟨hcourse, hsteps⟩ := hself rfl rfl
        obtain ⟨rfl, hnone⟩ := hcourse.of_ended
        rw [hsteps, hnone]
        exact .refused hunsent (h.closed_eq.symm.trans hclosed) rfl
      . exact hother rfl rfl hij
    | @judge j y hsettling hdrained hclears =>
      by_cases hij : i = j
      . subst hij
        obtain ⟨hcourse, hsteps⟩ := hself rfl rfl
        obtain ⟨rfl, hnone⟩ := hcourse.of_ended
        rw [hsteps, hnone, hsettling]
        exact .settling
      . exact hother rfl rfl hij
    | @expire j stage timeout hstage hwaits htimeout =>
      by_cases hij : i = j
      . subst hij
        obtain ⟨hcourse, hsteps⟩ := hself rfl rfl
        obtain ⟨rfl, hnone⟩ := hcourse.of_ended
        rw [hsteps, hnone, hstage]
        cases stage with
        | clearing ws => exact .expired htimeout rfl
        | settling => exact .settling
        | ended result' => contradiction
      . exact hother rfl rfl hij
    | flush hflush hflusher =>
      rwa [stepsOf_cons_of_ne (by simp [SharingEvent.caller?])]

/--
What the session gets is what the batches that send have, in the order in which they send.
-/
theorem Run.flatMap_senders (h : Sound batches x s) (hrun : Run batches admits s trace t) :
    trace.flatMap SharingEvent.sent = (senders trace).flatMap fun i => (batches i).writes := by
  unfold senders
  induction hrun with
  | nil s => rfl
  | @cons s u t e trace hstep hrun ih =>
    have hrest := ih (h.step hstep)
    rw [List.flatMap_cons, hrest]
    cases h.move hstep <;> rfl

end Sharing

end KeyedTables
