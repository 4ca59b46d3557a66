import KeyedTables.Proofs.Session.Isolation
import KeyedTables.Proofs.Session.Course

/-!
This module contains what becomes of batches that use one session at the same time. The failures that
a session keeps are those of the batch that sent its writes last, and the first batch that returns
after that takes them, whose ever they are. So it depends on the order in which the batches send and
return whether their results are their own.
-/

namespace KeyedTables

namespace SharingEvent

variable {ι : Type}

/--
A batch sends its writes or returns.
-/
def isTurn : SharingEvent ι → Bool
  | .went _ (.clearing _) _ | .flushed _ => false
  | .went _ _ _ => true

end SharingEvent

namespace Sharing

variable {ι : Type}

def turns (trace : List (SharingEvent ι)) : List (SharingEvent ι) :=
  trace.filter SharingEvent.isTurn

/--
Each batch that returns in these turns is judged by the failures that the session comes to then.
-/
def Judged (batches : ι → Batch) (x : Session) : Prospect → List (SharingEvent ι) → Prop
  | _, [] => True
  | p, e :: es =>
    (∀ i result, e = ends i result → result = (batches i).policy.judge p.failures)
      ∧ Judged batches x (p.after x e) es

variable {batches : ι → Batch} {i : ι} {x : Session} {result : Except TransferError Unit}

theorem judged_sends {p : Prospect} {es : List (SharingEvent ι)} :
    Judged batches x p (sends batches i :: es)
      ↔ Judged batches x
          ⟨p.store.appliedAll (batches i).writes, x.kept p.store (batches i).writes⟩ es := by
  refine and_iff_right ?_
  rintro j result ⟨⟩

theorem judged_ends {p : Prospect} {es : List (SharingEvent ι)} :
    Judged batches x p (ends i result :: es)
      ↔ result = (batches i).policy.judge p.failures ∧ Judged batches x ⟨p.store, []⟩ es := by
  have hafter : result = (batches i).policy.judge p.failures →
      p.after x (ends i result) = ⟨p.store, []⟩ := by
    rintro rfl
    rcases (batches i).policy.judge_cases p.failures with hok | ⟨_, _, _, _, herror⟩
    . rw [hok]
      rfl
    . rw [herror]
      rfl
  rw [Judged]
  constructor
  . rintro ⟨hall, hrest⟩
    have hresult := hall i result rfl
    rw [hafter hresult] at hrest
    exact ⟨hresult, hrest⟩
  . rintro ⟨hresult, hrest⟩
    rw [hafter hresult]
    refine ⟨?_, hrest⟩
    rintro j result ⟨⟩
    exact hresult

variable [DecidableEq ι] {admits : Sharing ι → ι → Prop} {s t : Sharing ι} {e : SharingEvent ι}
variable {trace : List (SharingEvent ι)}

def turnsOf (i : ι) (trace : List (SharingEvent ι)) : List (SharingEvent ι) :=
  (stepsOf i trace).filter SharingEvent.isTurn

/-!
# Turns
-/

theorem Run.judged (h : Sound batches x s) (hopen : x.closed = false)
    (htimeout : ∀ i, (batches i).policy.timeout? = none) (hrun : Run batches admits s trace t) :
    Judged batches x s.prospect (turns trace) := by
  induction hrun with
  | nil s => trivial
  | @cons s u t e trace hstep hrun ih =>
    have hrest := ih (h.step hstep)
    rw [prospect_step h hstep] at hrest
    unfold turns
    cases h.move hstep with
    | wait hnew hadmits => exact hrest
    | send hunsent hadmits hdrained hclears =>
      refine ⟨?_, hrest⟩
      rintro i result ⟨⟩
    | refuse hunsent hadmits hdrained hclears hclosed =>
      rw [h.closed_eq, hopen] at hclosed
      contradiction
    | judge hsettling hdrained hclears =>
      refine ⟨?_, hrest⟩
      rintro i result ⟨⟩
      rw [h.prospect_eq hdrained]
    | expire hstage hwaits hlimit =>
      rw [htimeout] at hlimit
      contradiction
    | flush hflush hflusher => exact hrest

/--
A batch that has returned has sent its writes and then returned, each once.
-/
theorem Run.turnsOf_eq (h : Sound batches x s) (hopen : x.closed = false)
    (htimeout : ∀ i, (batches i).policy.timeout? = none) (hrun : Run batches admits s trace t)
    (hnew : s.stage? i = none) (hended : t.stage? i = some (.ended result)) :
    turnsOf i trace = [sends batches i, ends i result] := by
  have hcourse := hrun.course h hended
  rw [hnew] at hcourse
  unfold turnsOf
  generalize stepsOf i trace = steps at hcourse
  cases hcourse with
  | send hunsent => rfl
  | refused hunsent hclosed hresult => simp [hopen] at hclosed
  | wait hrest =>
    cases hrest with
    | send hunsent => rfl
    | refused hunsent hclosed hresult => simp [hopen] at hclosed
    | expired hlimit hresult => simp [htimeout] at hlimit

theorem Run.flatMap_turns (h : Sound batches x s) (hrun : Run batches admits s trace t) :
    (turns trace).flatMap SharingEvent.sent = trace.flatMap SharingEvent.sent := by
  induction hrun with
  | nil s => rfl
  | @cons s u t e trace hstep hrun ih =>
    have hrest := ih (h.step hstep)
    unfold turns at hrest ⊢
    rw [List.filter_cons, List.flatMap_cons]
    split
    . rw [List.flatMap_cons, hrest]
    . next hturn =>
      have hsent : e.sent = [] := by
        cases h.move hstep with
        | wait hnew hadmits => rfl
        | flush hflush hflusher => rfl
        | _ => exact absurd rfl hturn
      rw [hsent, hrest]
      rfl

end Sharing

/-!
# Two batches
-/

/--
The third list has the members of the first two, each of these in its order.
-/
inductive Interleaves : List α → List α → List α → Prop where
  | nil : Interleaves [] [] []
  | left {as bs cs : List α} (a : α) (h : Interleaves as bs cs) : Interleaves (a :: as) bs (a :: cs)
  | right {as bs cs : List α} (b : α) (h : Interleaves as bs cs) :
    Interleaves as (b :: bs) (b :: cs)

theorem interleaves_filter (p : α → Bool) (as : List α) :
    Interleaves (as.filter p) (as.filter fun a => !p a) as := by
  induction as with
  | nil => exact .nil
  | cons a as ih =>
    cases hp : p a with
    | false =>
      rw [List.filter_cons_of_neg (by simp [hp]), List.filter_cons_of_pos (by simp [hp])]
      exact ih.right a
    | true =>
      rw [List.filter_cons_of_pos hp, List.filter_cons_of_neg (by simp [hp])]
      exact ih.left a

theorem Interleaves.eq_right {bs cs : List α} (h : Interleaves [] bs cs) : cs = bs := by
  induction bs generalizing cs with
  | nil =>
    cases h
    rfl
  | cons b bs ih =>
    cases h with
    | right _ h => rw [ih h]

theorem Interleaves.eq_left {as cs : List α} (h : Interleaves as [] cs) : cs = as := by
  induction as generalizing cs with
  | nil =>
    cases h
    rfl
  | cons a as ih =>
    cases h with
    | left _ h => rw [ih h]

theorem Interleaves.cases_two {a b : Bool → α} {cs : List α}
    (h : Interleaves [a true, b true] [a false, b false] cs) :
    ∃ i, cs = [a i, b i, a !i, b !i] ∨ cs = [a i, a !i, b !i, b i]
      ∨ cs = [a i, a !i, b i, b !i] := by
  cases h with
  | left _ h =>
    refine ⟨true, ?_⟩
    cases h with
    | left _ h => exact .inl (by rw [h.eq_right]; rfl)
    | right _ h =>
      cases h with
      | left _ h => exact .inr (.inr (by rw [h.eq_right]; rfl))
      | right _ h => exact .inr (.inl (by rw [h.eq_left]; rfl))
  | right _ h =>
    refine ⟨false, ?_⟩
    cases h with
    | right _ h => exact .inl (by rw [h.eq_left]; rfl)
    | left _ h =>
      cases h with
      | right _ h => exact .inr (.inr (by rw [h.eq_left]; rfl))
      | left _ h => exact .inr (.inl (by rw [h.eq_right]; rfl))

/--
A batch waits as long as it takes, and every write that is turned down makes it fail.
-/
def strict : BatchPolicy := {}

/--
The result of a batch whose writes are applied to `store` is its own: it succeeds only if all writes
were accepted, and a failure that it reports is that of one of its writes.
-/
def Truthful (store : Store) (ws : List Write) (result : Except TransferError Unit) : Prop :=
  (result = .ok () → strict.Accepts store ws)
    ∧ ∀ status write server suppressed,
      result = .error (.rejected status write server suppressed) → ∃ w ∈ ws, write = w.text

section Truthful

variable {x : Session} {store : Store} {ws : List Write}

theorem truthful_ok_iff : Truthful store ws (.ok ()) ↔ strict.Accepts store ws := by
  constructor
  . intro h
    exact h.1 rfl
  . intro h
    refine ⟨fun _ => h, ?_⟩
    rintro _ _ _ _ ⟨⟩

theorem truthful_judge (hroom : ws.length ≤ x.settings.errorCapacity) :
    Truthful store ws (strict.judge (x.kept store ws)) := by
  constructor
  . exact (Session.judge_kept_eq_ok_iff (Nat.le_trans (Store.length_rejections_le store ws) hroom)).1
  . intro status write server suppressed hrejected
    obtain ⟨pre, w, post, cause, rfl, -, -, -, -, hwrite, -⟩ :=
      Session.exists_of_judge_kept_eq_rejected hrejected
    exact ⟨w, by simp, hwrite⟩

end Truthful

namespace Sharing

/--
A batch may start at any time.
-/
def AtAnyTime (_ : Sharing Bool) (_ : Bool) : Prop := True

theorem interleaves_turnsOf (trace : List (SharingEvent Bool)) :
    Interleaves (turnsOf true trace) (turnsOf false trace) (turns trace) := by
  have hthis : turnsOf true trace = (turns trace).filter fun e => decide (e.caller? = some true) := by
    simp only [turnsOf, stepsOf, turns, List.filter_filter, Bool.and_comm]
  have hother : turnsOf false trace
      = (turns trace).filter fun e => !decide (e.caller? = some true) := by
    rw [turns, turnsOf, stepsOf, List.filter_filter, List.filter_filter]
    apply List.filter_congr
    intro e _
    cases e with
    | went i stage ws => cases i <;> cases stage <;> rfl
    | flushed e => rfl
  rw [hthis, hother]
  apply interleaves_filter

variable {writes : Bool → List Write} {x : Session} {store : Store} {t : Sharing Bool}
variable {trace : List (SharingEvent Bool)} {result : Bool → Except TransferError Unit}

/--
Of two batches on a session with room for their failures let `i` be the one that sends first. The
results of both are their own if `i` returns before the other batch sends. If the other one sends and
returns meanwhile, then `i` succeeds whatever became of its writes. And if the other one sends, but
`i` returns first, then `i` is judged by the writes of the other batch, which succeeds whatever
became of them.
-/
theorem Run.truthful_iff (hx : x.Exact) (hopen : x.closed = false)
    (hroom : ∀ i, (writes i).length ≤ x.settings.errorCapacity)
    (hrun : Run (fun i => ⟨strict, writes i⟩) AtAnyTime { session := x, store := store } trace t)
    (hended : ∀ i, t.stage? i = some (.ended (result i))) :
    ∃ i first second,
      first = store.appliedAll x.todo ∧ second = first.appliedAll (writes i)
      ∧ x.todo ++ writes i ++ writes (!i)
        = trace.filterMap SharingEvent.performed? ++ t.session.todo
      ∧ (turns trace
            = [.went i .settling (writes i), .went i (.ended (result i)) [],
              .went (!i) .settling (writes !i), .went (!i) (.ended (result !i)) []]
          ∧ Truthful first (writes i) (result i) ∧ Truthful second (writes !i) (result !i)
        ∨ turns trace
            = [.went i .settling (writes i), .went (!i) .settling (writes !i),
              .went (!i) (.ended (result !i)) [], .went i (.ended (result i)) []]
          ∧ result i = .ok ()
          ∧ (Truthful first (writes i) (result i) ∧ Truthful second (writes !i) (result !i)
            ↔ strict.Accepts first (writes i))
        ∨ turns trace
            = [.went i .settling (writes i), .went (!i) .settling (writes !i),
              .went i (.ended (result i)) [], .went (!i) (.ended (result !i)) []]
          ∧ result i = strict.judge (x.kept second (writes !i)) ∧ result (!i) = .ok ()
          ∧ (Truthful first (writes i) (result i) ∧ Truthful second (writes !i) (result !i)
            ↔ strict.Accepts first (writes i) ∧ strict.Accepts second (writes !i))) := by
  have hsound : Sound (fun i => ⟨strict, writes i⟩) x
      ({ session := x, store := store } : Sharing Bool) := sound_start hx store
  have htimeout : ∀ _ : Bool, strict.timeout? = none := fun _ => rfl
  have hturns (i : Bool) := hrun.turnsOf_eq hsound hopen htimeout rfl (hended i)
  have hjudged := hrun.judged hsound hopen htimeout
  obtain ⟨first, hfirst⟩ : ∃ first, first = store.appliedAll x.todo := ⟨_, rfl⟩
  have hprospect : ({ session := x, store := store } : Sharing Bool).prospect.store = first :=
    hfirst.symm
  obtain ⟨hsent, -⟩ := hrun.accounts hsound
  rw [← hrun.flatMap_turns hsound] at hsent
  have hmerge := interleaves_turnsOf trace
  rw [hturns, hturns] at hmerge
  obtain ⟨i, horder⟩ := hmerge.cases_two (a := sends fun i => ⟨strict, writes i⟩)
    (b := fun i => ends i (result i))
  have hsent_eq : x.todo ++ writes i ++ writes (!i)
      = trace.filterMap SharingEvent.performed? ++ t.session.todo := by
    rw [← hsent, List.append_assoc]
    rcases horder with horder | horder | horder <;>
      simp [horder, sends, ends, SharingEvent.sent]
  obtain ⟨second, hsecond⟩ : ∃ second, second = first.appliedAll (writes i) := ⟨_, rfl⟩
  refine ⟨i, first, second, hfirst, hsecond, hsent_eq, ?_⟩
  rcases horder with horder | horder | horder
  . rw [horder] at hjudged ⊢
    simp only [judged_sends, judged_ends, hprospect, ← hsecond] at hjudged
    obtain ⟨hi, hj, -⟩ := hjudged
    refine .inl ⟨rfl, ?_, ?_⟩
    . rw [hi]
      exact truthful_judge (hroom i)
    . rw [hj]
      exact truthful_judge (hroom !i)
  . rw [horder] at hjudged ⊢
    simp only [judged_sends, judged_ends, hprospect, ← hsecond] at hjudged
    obtain ⟨hj, hi, -⟩ := hjudged
    refine .inr (.inl ⟨rfl, hi, ?_⟩)
    rw [hi, hj]
    exact (and_iff_left (truthful_judge (hroom !i))).trans truthful_ok_iff
  . rw [horder] at hjudged ⊢
    simp only [judged_sends, judged_ends, hprospect, ← hsecond] at hjudged
    obtain ⟨hi, hj, -⟩ := hjudged
    refine .inr (.inr ⟨rfl, hi, hj, ?_⟩)
    -- if the other batch had no failure, then the one that it left behind is none
    have hnone : strict.Accepts second (writes !i) → result i = .ok () := by
      rw [hi]
      exact (Session.judge_kept_eq_ok_iff
        (Nat.le_trans (Store.length_rejections_le second (writes !i)) (hroom !i))).2
    rw [hj]
    constructor
    . rintro ⟨hown, hother⟩
      have haccepts := truthful_ok_iff.1 hother
      rw [hnone haccepts] at hown
      exact ⟨truthful_ok_iff.1 hown, haccepts⟩
    . rintro ⟨hown, haccepts⟩
      rw [hnone haccepts]
      exact ⟨truthful_ok_iff.2 hown, truthful_ok_iff.2 haccepts⟩

/--
Two batches on a new session. The one inserts a place, and the other one has one write.
-/
def insertAnd (w : Write) : Bool → List Write
  | true => [placeWrite .insert "a" 1]
  | false => [w]

/--
The second batch waits for the first one and returns before it. The first batch succeeds, as it may,
and the second one reports its own write.
-/
theorem truthful_insertAnd_update :
    ∃ trace t, ∃ result : Bool → Except TransferError Unit,
      (Session.Exact {}
        ∧ (∀ i, (insertAnd (placeWrite .update "b" 2) i).length ≤ defaultErrorCapacity)
        ∧ Run (fun i => ⟨strict, insertAnd (placeWrite .update "b" 2) i⟩) AtAnyTime
          { session := {}, store := Traffic.emptyPlaces } trace t
        ∧ ∀ i, t.stage? i = some (.ended (result i)))
      ∧ result true = .ok ()
      ∧ result false = .error (.rejected "Not found: key not found"
          "UPDATE places (region=b, id=2)" "memory-ts-0" 0)
      ∧ Truthful Traffic.emptyPlaces [placeWrite .insert "a" 1] (result true)
      ∧ Truthful (Traffic.emptyPlaces.appliedAll [placeWrite .insert "a" 1])
          [placeWrite .update "b" 2] (result false) := by
  let result : Bool → Except TransferError Unit
    | true => .ok ()
    | false => .error (.rejected "Not found: key not found" "UPDATE places (region=b, id=2)"
        "memory-ts-0" 0)
  obtain ⟨trace, t, hrun, hturns, hended⟩ : ∃ trace t,
      Run (fun i => ⟨strict, insertAnd (placeWrite .update "b" 2) i⟩) AtAnyTime
        { session := {}, store := Traffic.emptyPlaces } trace t
      ∧ turns trace
        = [.went true .settling [placeWrite .insert "a" 1],
          .went false .settling [placeWrite .update "b" 2],
          .went false (.ended (result false)) [], .went true (.ended (result true)) []]
      ∧ ∀ i, t.stage? i = some (.ended (result i)) :=
    ⟨_, _, .cons (.start (i := true) rfl trivial rfl) <|
      .cons (.start (i := false) rfl trivial rfl) <|
      .cons (.flush (.take rfl rfl) rfl) <| .cons (.flush (.accept rfl rfl) rfl) <|
      .cons (.flush (.finish rfl) rfl) <| .cons (.resume (i := false) rfl rfl rfl rfl) <|
      .cons (.flush (.take rfl rfl) rfl) <| .cons (.flush (.reject rfl rfl) rfl) <|
      .cons (.flush (.finish rfl) rfl) <| .cons (.resume (i := false) rfl rfl rfl rfl) <|
      .cons (.resume (i := true) rfl rfl rfl rfl) <| .nil _, rfl, by rintro (_ | _) <;> rfl⟩
  have hroom : ∀ i, (insertAnd (placeWrite .update "b" 2) i).length ≤ defaultErrorCapacity := by
    rintro (_ | _) <;> decide
  refine ⟨trace, t, result, ⟨rfl, hroom, hrun, hended⟩, rfl, rfl, ?_⟩
  obtain ⟨i, first, second, rfl, rfl, -, horder⟩ :=
    hrun.truthful_iff (x := {}) rfl rfl hroom hended
  rw [hturns] at horder
  have haccepts : strict.Accepts Traffic.emptyPlaces [placeWrite .insert "a" 1] := by
    rw [BatchPolicy.accepts_iff]
    rintro q ⟨⟩
  cases i with
  | true =>
    rcases horder with ⟨hother, -⟩ | ⟨-, -, hiff⟩ | ⟨hother, -⟩
    . simp at hother
    . exact hiff.2 haccepts
    . simp at hother
  | false =>
    rcases horder with ⟨hother, -⟩ | ⟨hother, -⟩ | ⟨hother, -⟩
    . simp at hother
    . simp at hother
    . simp at hother

/--
Two ways in which results of batches on one session are not their own. In the first run the place is
there already, and the second batch throws away the failure of the first one, which succeeds. In the
second run the first batch returns first and reports the write of the second one, which succeeds.
-/
theorem not_truthful_insertAnd :
    (∃ trace t, Run (fun i => ⟨strict, insertAnd (placeWrite .upsert "b" 2) i⟩) AtAnyTime
        { session := {}, store := Traffic.emptyPlaces.applied (placeWrite .insert "a" 1) } trace t
      ∧ t.stage? true = some (.ended (.ok ()))
      ∧ t.stage? false = some (.ended (.ok ()))
      ∧ (Traffic.emptyPlaces.applied (placeWrite .insert "a" 1)).apply (placeWrite .insert "a" 1)
        = .error ⟨.alreadyPresent, "key already present"⟩)
    ∧ ∃ trace t, Run (fun i => ⟨strict, insertAnd (placeWrite .update "b" 2) i⟩) AtAnyTime
        { session := {}, store := Traffic.emptyPlaces } trace t
      ∧ t.stage? true = some (.ended (.error (.rejected "Not found: key not found"
          "UPDATE places (region=b, id=2)" "memory-ts-0" 0)))
      ∧ (placeWrite .insert "a" 1).text = "INSERT places (region=a, id=1)"
      ∧ t.stage? false = some (.ended (.ok ()))
      ∧ (Traffic.emptyPlaces.applied (placeWrite .insert "a" 1)).apply (placeWrite .update "b" 2)
        = .error ⟨.notFound, "key not found"⟩ := by
  constructor
  . exact ⟨_, _, .cons (.start (i := true) rfl trivial rfl) <|
      .cons (.start (i := false) rfl trivial rfl) <|
      .cons (.flush (.take rfl rfl) rfl) <| .cons (.flush (.reject rfl rfl) rfl) <|
      .cons (.flush (.finish rfl) rfl) <| .cons (.resume (i := false) rfl rfl rfl rfl) <|
      .cons (.flush (.take rfl rfl) rfl) <| .cons (.flush (.accept rfl rfl) rfl) <|
      .cons (.flush (.finish rfl) rfl) <| .cons (.resume (i := false) rfl rfl rfl rfl) <|
      .cons (.resume (i := true) rfl rfl rfl rfl) <| .nil _, rfl, rfl, rfl⟩
  . exact ⟨_, _, .cons (.start (i := true) rfl trivial rfl) <|
      .cons (.start (i := false) rfl trivial rfl) <|
      .cons (.flush (.take rfl rfl) rfl) <| .cons (.flush (.accept rfl rfl) rfl) <|
      .cons (.flush (.finish rfl) rfl) <| .cons (.resume (i := false) rfl rfl rfl rfl) <|
      .cons (.flush (.take rfl rfl) rfl) <| .cons (.flush (.reject rfl rfl) rfl) <|
      .cons (.flush (.finish rfl) rfl) <| .cons (.resume (i := true) rfl rfl rfl rfl) <|
      .cons (.resume (i := false) rfl rfl rfl rfl) <| .nil _, rfl, by decide, rfl, rfl⟩

end Sharing

end KeyedTables
