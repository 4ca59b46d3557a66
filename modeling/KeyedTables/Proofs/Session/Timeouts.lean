import KeyedTables.Proofs.Session.Isolation
import KeyedTables.Proofs.Session.Sending

/-!
This module contains batches that are applied one after the other on one session and may give up
waiting at any time. A batch that gives up leaves writes behind that the flusher still applies, and
their failures. All the same a batch gives up before it has sent anything or after it has sent all its
writes, the batches send in their order, and no batch is judged by failures of another one.
-/

namespace KeyedTables

namespace Sharing

/--
All batches before this one have returned.
-/
def OneByOne (s : Sharing Nat) (i : Nat) : Prop :=
  ∀ j < i, ∃ result, s.stage? j = some (.ended result)

/--
Every batch that has started came after all others had returned.
-/
def InTurn (s : Sharing Nat) : Prop :=
  ∀ i, s.stage? i ≠ none → s.OneByOne i

/-!
# Steps
-/

section Steps

variable {ι : Type} [DecidableEq ι] {batches : ι → Batch} {admits : Sharing ι → ι → Prop}
variable {s t : Sharing ι} {e : SharingEvent ι} {i : ι}

/--
A batch that takes a step has not returned.
-/
theorem Step.active (hstep : Step batches admits s e t) (hcaller : e.caller? = some i) :
    s.stage? i = none ∧ admits s i ∨ ∃ stage, s.stage? i = some stage ∧ stage.result? = none := by
  cases hstep with
  | start hnew hadmits hstart =>
    cases hcaller
    exact .inl ⟨hnew, hadmits⟩
  | resume hstage hwaits hdrained hresume =>
    cases hcaller
    exact .inr ⟨_, hstage, hwaits⟩
  | expire hstage hwaits htimeout =>
    cases hcaller
    exact .inr ⟨_, hstage, hwaits⟩
  | flush hflush hflusher => contradiction

theorem Step.stage?_eq (hstep : Step batches admits s e t) (hcaller : e.caller? ≠ some i) :
    t.stage? i = s.stage? i := by
  have hother : ∀ {j stage y}, some j ≠ some i → (s.advance j stage y).stage? i = s.stage? i := by
    intro j stage y hj
    rw [stage?_advance_of_ne]
    rintro rfl
    exact hj rfl
  cases hstep with
  | start hnew hadmits hstart => exact hother hcaller
  | resume hstage hwaits hdrained hresume => exact hother hcaller
  | expire hstage hwaits htimeout => exact hother hcaller
  | flush hflush hflusher => rfl

end Steps

variable {batches : Nat → Batch} {s t : Sharing Nat} {x : Session} {e : SharingEvent Nat}
variable {trace : List (SharingEvent Nat)} {i j : Nat} {result : Except TransferError Unit}

theorem OneByOne.step (h : Sound batches x s) (hstep : Step batches OneByOne s e t)
    (hi : s.OneByOne i) : t.OneByOne i := by
  intro j hj
  obtain ⟨result, hended⟩ := hi j hj
  exact ⟨result, ended_step h hstep hended⟩

theorem inTurn_start (x : Session) (store : Store) :
    InTurn ({ session := x, store := store } : Sharing Nat) := by
  intro i hi
  contradiction

theorem InTurn.oneByOne (hturn : s.InTurn) (hstep : Step batches OneByOne s e t)
    (hcaller : e.caller? = some i) : s.OneByOne i := by
  rcases hstep.active hcaller with ⟨-, hadmits⟩ | ⟨stage, hstage, -⟩
  . exact hadmits
  . exact hturn i (by simp [hstage])

theorem InTurn.step (hturn : s.InTurn) (h : Sound batches x s)
    (hstep : Step batches OneByOne s e t) : t.InTurn := by
  intro i hi
  apply OneByOne.step h hstep
  by_cases hcaller : e.caller? = some i
  . exact hturn.oneByOne hstep hcaller
  . rw [hstep.stage?_eq hcaller] at hi
    exact hturn i hi

/--
While a batch has started and not returned, no other one takes a step.
-/
theorem InTurn.caller_eq {stage : BatchStage} (hturn : s.InTurn)
    (hstep : Step batches OneByOne s e t) (hcaller : e.caller? = some j)
    (hstage : s.stage? i = some stage) (hwaits : stage.result? = none) : j = i := by
  have hj := hturn.oneByOne hstep hcaller
  have hi := hturn i (by simp [hstage])
  rcases Nat.lt_trichotomy j i with hlt | heq | hgt
  . obtain ⟨result, hended⟩ := hi j hlt
    rcases hstep.active hcaller with ⟨hnew, -⟩ | ⟨stage', hstage', hwaits'⟩
    . rw [hnew] at hended
      contradiction
    . rw [hended, Option.some.injEq] at hstage'
      rw [← hstage'] at hwaits'
      contradiction
  . exact heq
  . obtain ⟨result, hended⟩ := hj i hgt
    rw [hended, Option.some.injEq] at hstage
    rw [← hstage] at hwaits
    contradiction

/-!
# Order
-/

/--
What batches send comes in the order of the batches.
-/
theorem Run.senders_increasing (h : Sound batches x s) (hturn : s.InTurn)
    (hrun : Run batches OneByOne s trace t) :
    (senders trace).Pairwise (· < ·) ∧ ∀ i ∈ senders trace, s.Unsent batches i := by
  induction hrun with
  | nil s => exact ⟨.nil, by simp [senders]⟩
  | @cons s u t e trace hstep hrun ih =>
    have hturn' := hturn.step h hstep
    obtain ⟨hincreasing, hunsent⟩ := ih (h.step hstep) hturn'
    have hback : ∀ i, u.Unsent batches i → e.caller? ≠ some i → s.Unsent batches i := by
      intro i hi hcaller
      unfold Unsent at hi ⊢
      rwa [hstep.stage?_eq hcaller] at hi
    -- a batch that is at its end has sent nothing yet only if it never will
    have hended : ∀ {j result y}, u = s.advance j (.ended result) y →
        e.caller? = some j → ∀ i ∈ senders trace, s.Unsent batches i := by
      rintro j result y rfl hcaller i hi
      apply hback i (hunsent i hi)
      intro hi'
      have hi'' := hunsent i hi
      rw [hcaller, Option.some.injEq] at hi'
      simp [Unsent, ← hi'] at hi''
    cases h.move hstep with
    | @wait j hnew hadmits =>
      refine ⟨hincreasing, ?_⟩
      intro i hi
      by_cases hij : i = j
      . rw [hij]
        exact .inl hnew
      . exact hback i (hunsent i hi) (by simpa [SharingEvent.caller?] using Ne.symm hij)
    | @send j y hjunsent hadmits hdrained hclears =>
      have hlater : ∀ i ∈ senders trace, j < i := by
        intro i hi
        have hiunsent := hunsent i hi
        rcases Nat.lt_trichotomy i j with hlt | heq | hgt
        . obtain ⟨result, hended⟩ := hturn' j (by simp) i hlt
          rcases hiunsent with hi' | hi' <;> simp [hended] at hi'
        . subst heq
          simp [Unsent] at hiunsent
        . exact hgt
      refine ⟨.cons hlater hincreasing, ?_⟩
      intro i hi
      cases List.mem_cons.1 hi with
      | inl heq =>
        rw [heq]
        exact hjunsent
      | inr hi =>
        have := hlater i hi
        apply hback i (hunsent i hi)
        rintro ⟨⟩
        exact Nat.lt_irrefl _ this
    | refuse hjunsent hadmits hdrained hclears hclosed => exact ⟨hincreasing, hended rfl rfl⟩
    | judge hsettling hdrained hclears => exact ⟨hincreasing, hended rfl rfl⟩
    | expire hstage hwaits htimeout => exact ⟨hincreasing, hended rfl rfl⟩
    | flush hflush hflusher =>
      refine ⟨hincreasing, ?_⟩
      intro i hi
      exact hback i (hunsent i hi) (by simp [SharingEvent.caller?])

/-!
# Judgement
-/

/--
A batch that waits for its own writes, and does not run out of time, is judged by the failures that
the session comes to.
-/
theorem Run.judged_of_settling (h : Sound batches x s) (hturn : s.InTurn)
    (hrun : Run batches OneByOne s trace t) (hsettling : s.stage? i = some .settling)
    (hended : t.stage? i = some (.ended result))
    (htimely : ∀ milliseconds, result ≠ .error (.timedOut milliseconds)) :
    result = (batches i).policy.judge s.prospect.failures := by
  induction hrun with
  | nil s =>
    rw [hsettling] at hended
    cases hended
  | @cons s u t e trace hstep hrun ih =>
    have hprospect := prospect_step h hstep
    have hsound := h.step hstep
    have hcaller : ∀ j, e.caller? = some j → j = i := fun j hj =>
      hturn.caller_eq hstep hj hsettling rfl
    cases h.move hstep with
    | @wait j hnew hadmits =>
      cases hcaller j rfl
      rw [hsettling] at hnew
      contradiction
    | @send j y hunsent hadmits hdrained hclears =>
      cases hcaller j rfl
      simp [Unsent, hsettling] at hunsent
    | @refuse j y hunsent hadmits hdrained hclears hclosed =>
      cases hcaller j rfl
      simp [Unsent, hsettling] at hunsent
    | @judge j y hjsettling hdrained hclears =>
      cases hcaller j rfl
      rw [h.prospect_eq hdrained]
      exact hrun.result_eq hsound stage?_advance_self hended
    | @expire j stage timeout hstage hwaits htimeout =>
      cases hcaller j rfl
      exact absurd (hrun.result_eq hsound stage?_advance_self hended) (htimely _)
    | flush hflush hflusher =>
      have hrest := ih hsound (hturn.step h hstep) hsettling hended
      rwa [hprospect] at hrest

theorem store_prospect_step (h : Sound batches x s) (hstep : Step batches OneByOne s e t) :
    t.prospect.store = s.prospect.store.appliedAll e.sent := by
  unfold prospect
  rw [← Store.appliedAll_append, todo_step h hstep, Store.appliedAll_append, ← store_step hstep]

/--
A batch that is judged is judged by the failures of its own writes, which are applied after
everything that was sent before them.
-/
theorem Run.judged_of_unsent (h : Sound batches x s) (hturn : s.InTurn)
    (hrun : Run batches OneByOne s trace t) (hunsent : s.Unsent batches i)
    (hended : t.stage? i = some (.ended result))
    (htimely : ∀ milliseconds, result ≠ .error (.timedOut milliseconds))
    (htaken : result ≠ .error (.store .sessionClosed)) :
    ∃ earlier later, trace = earlier ++ sends batches i :: later
      ∧ result = (batches i).policy.judge (x.kept
          (s.prospect.store.appliedAll (earlier.flatMap SharingEvent.sent)) (batches i).writes) := by
  induction hrun with
  | nil s => rcases hunsent with hstage | hstage <;> simp [hended] at hstage
  | @cons s u t e trace hstep hrun ih =>
    have hsound := h.step hstep
    have hturn' := hturn.step h hstep
    -- what is sent before the batch has sent its writes comes before them
    have hlater : u.Unsent batches i → ∃ earlier later,
        e :: trace = earlier ++ sends batches i :: later
        ∧ result = (batches i).policy.judge (x.kept
            (s.prospect.store.appliedAll (earlier.flatMap SharingEvent.sent))
            (batches i).writes) := by
      intro hunsent'
      obtain ⟨earlier, later, htrace, hresult⟩ := ih hsound hturn' hunsent' hended
      refine ⟨e :: earlier, later, by rw [htrace, List.cons_append], ?_⟩
      rw [hresult, store_prospect_step h hstep, List.flatMap_cons, Store.appliedAll_append]
    by_cases hcaller : e.caller? = some i
    . have hprospect := prospect_step h hstep
      cases h.move hstep with
      | wait hnew hadmits =>
        cases hcaller
        exact hlater (.inr stage?_advance_self)
      | send hjunsent hadmits hdrained hclears =>
        cases hcaller
        refine ⟨[], trace, rfl, ?_⟩
        rw [hrun.judged_of_settling hsound hturn' stage?_advance_self hended htimely, hprospect]
        rfl
      | refuse hjunsent hadmits hdrained hclears hclosed =>
        cases hcaller
        exact absurd (hrun.result_eq hsound stage?_advance_self hended) htaken
      | judge hsettling hdrained hclears =>
        cases hcaller
        rcases hunsent with hstage | hstage <;> simp [hsettling] at hstage
      | expire hstage hwaits htimeout =>
        cases hcaller
        exact absurd (hrun.result_eq hsound stage?_advance_self hended) (htimely _)
      | flush hflush hflusher => contradiction
    . apply hlater
      unfold Unsent
      rwa [hstep.stage?_eq hcaller]

/--
The failure that a batch reports is the first one of its own writes that may not be ignored, when
they are applied to `store`.
-/
def Reports (b : Batch) (x : Session) (store : Store) (status write server : String)
    (suppressed : Nat) : Prop :=
  ∃ pre w post cause, b.writes = pre ++ w :: post
    ∧ b.policy.Accepts store pre
    ∧ (store.appliedAll pre).apply w = .error cause
    ∧ ¬ b.policy.Ignores cause
    ∧ status = cause.text ∧ write = w.text ∧ server = x.settings.server
    ∧ suppressed
      = (((store.appliedAll pre).rejections post).take
          (x.settings.errorCapacity - (store.rejections pre).length - 1)).countP
        fun q => ¬ b.policy.Ignores q.2

/--
A failure that a batch reports is one of its own writes, applied after everything that was outstanding
and that was sent before them.
-/
theorem Run.reports_own (hx : x.Exact) {store : Store}
    (hrun : Run batches OneByOne { session := x, store := store } trace t)
    {status write server : String} {suppressed : Nat}
    (hended : t.stage? i = some (.ended (.error (.rejected status write server suppressed)))) :
    ∃ before after, senders trace = before ++ i :: after
      ∧ Reports (batches i) x
        (store.appliedAll (x.todo ++ before.flatMap fun j => (batches j).writes))
        status write server suppressed := by
  have hsound : Sound batches x { session := x, store := store } := sound_start hx store
  obtain ⟨earlier, later, htrace, hresult⟩ :=
    hrun.judged_of_unsent hsound (inTurn_start x store) (.inl rfl) hended (by simp) (by simp)
  subst htrace
  obtain ⟨u, hearlier, -⟩ := run_append hrun
  refine ⟨senders earlier, senders later, List.filterMap_append .., ?_⟩
  rw [← hearlier.flatMap_senders hsound, Store.appliedAll_append]
  exact Session.exists_of_judge_kept_eq_rejected hresult.symm

end Sharing

/-!
# Write by write
-/

namespace Sending

open Sharing (OneByOne Reports Sound senders sound_start inTurn_start)

variable {batches : Nat → Batch} {t : Sending Nat} {c : Sharing Nat} {x : Session}
variable {trace : List (SendingEvent Nat)} {pending : List Nat}

theorem exists_of_append_eq {i : Nat} {done before after : List Nat}
    (h : done ++ pending = before ++ i :: after) (hi : i ∉ pending) :
    ∃ after', done = before ++ i :: after' := by
  rcases List.append_eq_append_iff.1 h with ⟨as, -, hpending⟩ | ⟨cs, hdone, hrest⟩
  . exact absurd (by simp [hpending]) hi
  . cases cs with
    | nil =>
      rw [List.nil_append] at hrest
      exact absurd (by simp [← hrest]) hi
    | cons j cs =>
      rw [List.cons_append, List.cons.injEq] at hrest
      exact ⟨cs, by rw [hdone, hrest.1]⟩

/--
What the flusher has to do is what batches have sent, to their ends or in part.
-/
theorem exists_part {sent performed : List Write} {done : List Nat}
    (hprogress : ∀ i, Progress (batches i) i trace (t.stage? i)) (h : Shadows batches t c pending)
    (hsent : sent ++ (done ++ pending).flatMap (fun i => (batches i).writes)
      = performed ++ c.session.todo) :
    ∃ part, sent ++ done.flatMap (fun i => (batches i).writes) ++ part
        = performed ++ t.traffic.session.todo
      ∧ (t.Quiet ∧ part = []
        ∨ ∃ i rest, t.stage? i = some (.sends rest) ∧ part = sentBy i trace
          ∧ part ++ rest = (batches i).writes) := by
  have hpart {i : Nat} {rest : List Write} (hsends : Sends batches t i rest) :
      sentBy i trace ++ rest = (batches i).writes := by
    have hi := hprogress i
    rw [hsends.stage?_eq] at hi
    exact hi.sentBy_append
  cases h with
  | quiet hquiet hnone =>
    refine ⟨[], ?_, .inl ⟨hquiet, rfl⟩⟩
    rwa [List.append_nil] at hsent ⊢
  | @sending i rest hsends hopen =>
    refine ⟨sentBy i trace, ?_, .inr ⟨i, rest, hsends.stage?_eq, rfl, hpart hsends⟩⟩
    -- on the shared session everything has been sent, and so the rest comes last on both sides
    rw [Sharing.session_advance, Session.todo_loaded, List.flatMap_append, List.flatMap_singleton,
      ← hpart hsends] at hsent
    rw [← List.append_left_inj rest, List.append_assoc, List.append_assoc, hsent, List.append_assoc]
  | @refusing i rest hsends hclosed hall hne =>
    have hsame := hpart hsends
    rw [hall, List.append_left_eq_self] at hsame
    refine ⟨[], ?_, .inr ⟨i, rest, hsends.stage?_eq, hsame.symm, hall⟩⟩
    rw [Sharing.session_advance, Session.todo_loaded, List.append_nil, List.append_nil] at hsent
    rw [List.append_nil, hsent]

/--
Batches that are applied one after the other, with or without timeouts, on a session that may have
anything outstanding. They send one write after the other, and the flusher takes its steps at any
time. A batch whose time is up has either sent nothing, because it waited for others, or all its
writes in order. At any moment, what was outstanding, then the batches that have sent everything, in
their order and each once, and then what a batch that is sending has sent so far, is what the flusher
has applied and then what it has still to apply. And a batch that reports a failure reports one of its
own writes.
-/
theorem Run.applies_whole_batches (hx : x.Exact) {store : Store}
    (hrun : Run batches OneByOne ⟨⟨x, store, []⟩, fun _ => none⟩ trace t) :
    (∀ i milliseconds, t.stage? i = some (.rests (.ended (.error (.timedOut milliseconds)))) →
        SentNothing i trace ∨ SentAll (batches i) i trace)
      ∧ (submitted trace).Pairwise (· < ·)
      ∧ (∃ part, x.todo ++ (submitted trace).flatMap (fun i => (batches i).writes) ++ part
          = performed trace ++ t.traffic.session.todo
        ∧ (t.Quiet ∧ part = []
          ∨ ∃ i rest, t.stage? i = some (.sends rest) ∧ part = sentBy i trace
            ∧ part ++ rest = (batches i).writes))
      ∧ t.traffic.store = store.appliedAll (performed trace)
      ∧ ∀ i status write server suppressed,
        t.stage? i = some (.rests (.ended (.error (.rejected status write server suppressed)))) →
          ∃ before after, submitted trace = before ++ i :: after
            ∧ Reports (batches i) x
              (store.appliedAll (x.todo ++ before.flatMap fun j => (batches j).writes))
              status write server suppressed := by
  have hprogress (i : Nat) : Progress (batches i) i trace (t.stage? i) :=
    hrun.progress [] ⟨by simp, rfl, by simp [submitted]⟩
  obtain ⟨es, c, pending, hshared, hshadows, hperformed, hsenders⟩ := hrun.shadowed hx
  have hsound : Sound batches x { session := x, store := store } := sound_start hx store
  obtain ⟨hsent, hstore⟩ := hshared.accounts hsound
  have hincreasing := (hshared.senders_increasing hsound (inTurn_start x store)).1
  rw [hshared.flatMap_senders hsound, hsenders, hperformed] at hsent
  rw [hsenders] at hincreasing
  refine ⟨?_, (List.pairwise_append.1 hincreasing).1, ?_, ?_, ?_⟩
  . intro i milliseconds hended
    have h := hprogress i
    rw [hended] at h
    exact h (by simp)
  . exact exists_part hprogress hshadows hsent
  . rw [← hshadows.store_eq, hstore, hperformed]
  . intro i status write server suppressed hended
    obtain ⟨before, after, hbefore, hreports⟩ := hshared.reports_own hx (hshadows.stage?_eq hended)
    rw [hsenders] at hbefore
    obtain ⟨after', hsubmitted⟩ := exists_of_append_eq hbefore (hshadows.not_mem_pending hended)
    exact ⟨before, after', hsubmitted, hreports⟩

/--
A batch that gives up while its own writes are outstanding, one that gives up waiting for that, and
then batches that wait as long as it takes.
-/
def impatient : Nat → Batch
  | 0 => ⟨{ timeout? := some ⟨10 ^ 7, by decide⟩ },
    [placeWrite .insert "a" 1, placeWrite .insert "a" 3]⟩
  | 1 => ⟨{ timeout? := some ⟨10 ^ 7, by decide⟩ }, [placeWrite .upsert "a" 2]⟩
  | _ => ⟨{}, [placeWrite .update "b" 2]⟩

def onePlace : Sending Nat where
  traffic :=
    { session := {}
      store := Traffic.emptyPlaces.applied (placeWrite .insert "a" 1) }

/--
The place is there already, so the first batch fails after it has given up, and one of its writes is
turned down before it has sent the other one. The second batch sends nothing. The third one throws
the failure of the first one away and reports its own.
-/
theorem applies_impatient_batches :
    ∃ trace t, (Session.Exact {} ∧ Run impatient OneByOne onePlace trace t)
      ∧ SentAll (impatient 0) 0 trace
      ∧ SentNothing 1 trace
      ∧ submitted trace = [0, 2]
      ∧ performed trace ++ t.traffic.session.todo
        = [placeWrite .insert "a" 1, placeWrite .insert "a" 3, placeWrite .update "b" 2]
      ∧ ∃ before after, submitted trace = before ++ 2 :: after
        ∧ Reports (impatient 2) {}
          (onePlace.traffic.store.appliedAll ([] ++ before.flatMap fun j => (impatient j).writes))
          "Not found: key not found" "UPDATE places (region=b, id=2)" "memory-ts-0" 0 := by
  obtain ⟨trace, t, hrun, hsubmitted, hperformed, hfirst, hsecond, hthird⟩ : ∃ trace t,
      Run impatient OneByOne onePlace trace t
      ∧ submitted trace = [0, 2]
      ∧ performed trace ++ t.traffic.session.todo
        = [placeWrite .insert "a" 1, placeWrite .insert "a" 3, placeWrite .update "b" 2]
      ∧ t.stage? 0 = some (.rests (.ended (.error (.timedOut 10))))
      ∧ t.stage? 1 = some (.rests (.ended (.error (.timedOut 10))))
      ∧ t.stage? 2 = some (.rests (.ended (.error (.rejected "Not found: key not found"
          "UPDATE places (region=b, id=2)" "memory-ts-0" 0)))) :=
    ⟨_, _, .cons (.begin (i := 0) (by simp [Quiet, onePlace]) rfl (by simp [OneByOne]) rfl) <|
      .cons (.announce (i := 0) rfl rfl (.announce _ _)) <|
      .cons (.send (i := 0) rfl (.send [] rfl rfl)) <|
      .cons (.flush (.take rfl rfl) rfl) <|
      .cons (.announce (i := 0) rfl rfl (.announce _ _)) <|
      .cons (.flush (.reject rfl rfl) rfl) <|
      .cons (.send (i := 0) rfl (.send [] rfl rfl)) <|
      .cons (.settle (i := 0) rfl) <|
      .cons (.expire (i := 0) (by rintro (_ | _ | _ | i) ws ⟨⟩) rfl rfl rfl) <|
      .cons (.wait (i := 1) (by rintro (_ | _ | _ | i) ws ⟨⟩) rfl
        (by rintro (_ | j) hj; exacts [⟨_, rfl⟩, by omega]) rfl) <|
      .cons (.expire (i := 1) (by rintro (_ | _ | _ | i) ws ⟨⟩) rfl rfl rfl) <|
      .cons (.wait (i := 2) (by rintro (_ | _ | _ | i) ws ⟨⟩) rfl
        (by rintro (_ | _ | j) hj; exacts [⟨_, rfl⟩, ⟨_, rfl⟩, by omega]) rfl) <|
      .cons (.flush (.finish rfl) rfl) <|
      .cons (.flush (.take rfl rfl) rfl) <| .cons (.flush (.accept rfl rfl) rfl) <|
      .cons (.flush (.finish rfl) rfl) <|
      .cons (.clear (i := 2) (by rintro (_ | _ | _ | i) ws ⟨⟩) rfl rfl) <|
      .cons (.announce (i := 2) rfl rfl (.announce _ _)) <|
      .cons (.send (i := 2) rfl (.send [] rfl rfl)) <|
      .cons (.settle (i := 2) rfl) <|
      .cons (.flush (.take rfl rfl) rfl) <| .cons (.flush (.reject rfl rfl) rfl) <|
      .cons (.flush (.finish rfl) rfl) <|
      .cons (.judge (i := 2) (by rintro (_ | _ | _ | i) ws ⟨⟩) rfl rfl rfl) <| .nil _,
      rfl, rfl, rfl, rfl, rfl⟩
  obtain ⟨htimely, -, -, -, hreports⟩ := hrun.applies_whole_batches (x := {}) rfl
  refine ⟨trace, t, ⟨rfl, hrun⟩, ?_, ?_, hsubmitted, hperformed, hreports 2 _ _ _ _ hthird⟩
  . rcases htimely 0 10 hfirst with hnothing | hall
    . exact absurd hnothing.not_submitted (by simp [hsubmitted])
    . exact hall
  . rcases htimely 1 10 hsecond with hnothing | hall
    . exact hnothing
    . exact absurd hall.mem_submitted (by simp [hsubmitted])

/--
The flusher applies the first write of a batch before the batch has sent the second one, so what it
has applied is not only what whole batches have sent.
-/
theorem performs_before_submitted :
    ∃ trace t, Run impatient OneByOne ⟨⟨{}, Traffic.emptyPlaces, []⟩, fun _ => none⟩ trace t
      ∧ performed trace = [placeWrite .insert "a" 1]
      ∧ t.traffic.store = Traffic.emptyPlaces.applied (placeWrite .insert "a" 1)
      ∧ ¬ performed trace <+: (submitted trace).flatMap fun i => (impatient i).writes := by
  obtain ⟨trace, t, hrun, hperformed, hstore, hsubmitted⟩ : ∃ trace t,
      Run impatient OneByOne ⟨⟨{}, Traffic.emptyPlaces, []⟩, fun _ => none⟩ trace t
      ∧ performed trace = [placeWrite .insert "a" 1]
      ∧ t.traffic.store = Traffic.emptyPlaces.applied (placeWrite .insert "a" 1)
      ∧ submitted trace = [] :=
    ⟨_, _, .cons (.begin (i := 0) (by simp [Quiet]) rfl (by simp [OneByOne]) rfl) <|
      .cons (.announce (i := 0) rfl rfl (.announce _ _)) <|
      .cons (.send (i := 0) rfl (.send [] rfl rfl)) <|
      .cons (.flush (.take rfl rfl) rfl) <| .cons (.flush (.accept rfl rfl) rfl) <| .nil _,
      rfl, rfl, rfl⟩
  refine ⟨trace, t, hrun, hperformed, hstore, ?_⟩
  rw [hperformed, hsubmitted]
  simp

end Sending

end KeyedTables
