import Mathlib.Data.List.DropRight
import KeyedTables.Proofs.Session.Traffic

/-!
This module contains the account that a session keeps of the writes that its store turned down. Any
number of callers may send writes and take the failures that are kept, in any order, and between two
steps others may do to the store what they like. However often failures are taken, each time these
are the first ones since the last time, as many as there is room for, and it is told whether there
were more.
-/

namespace KeyedTables

/-!
# Buffers
-/

namespace FailureBuffer

/--
What is left of failures when they come one after the other to an empty buffer of this capacity.
-/
def ofAll (capacity : Nat) (failures : List FailedWrite) : FailureBuffer :=
  ⟨failures.take capacity, decide (capacity < failures.length)⟩

theorem ofAll_nil (capacity : Nat) : ofAll capacity [] = {} := by
  simp [ofAll]

theorem record_ofAll (capacity : Nat) (failures : List FailedWrite) (f : FailedWrite) :
    (ofAll capacity failures).record capacity f = ofAll capacity (failures ++ [f]) := by
  unfold record ofAll
  rw [List.length_take, List.length_append, List.length_singleton]
  by_cases hroom : failures.length < capacity
  . have hall : (failures ++ [f]).length ≤ capacity := by
      rw [List.length_append, List.length_singleton]
      omega
    have hflag : decide (capacity < failures.length) = decide (capacity < failures.length + 1) := by
      rw [decide_eq_decide]
      omega
    rw [if_pos (by omega), List.take_of_length_le hroom.le, List.take_of_length_le hall, hflag]
  . have hfull : capacity ≤ failures.length := Nat.le_of_not_lt hroom
    rw [if_neg (by omega), List.take_append_of_le_length hfull,
      decide_eq_true (Nat.lt_succ_of_le hfull)]

end FailureBuffer

/-!
# Sessions on a store that others use too
-/

namespace SessionEvent

def collects : SessionEvent → Bool
  | .collected _ => true
  | _ => false

theorem buffer_of_collects {e : SessionEvent} (h : e.collects = true) (capacity : Nat)
    (b : FailureBuffer) : buffer capacity b e = {} := by
  cases e <;> first | rfl | contradiction

theorem buffer_of_handed {e : SessionEvent} {f : FailedWrite} (h : e.handed? = some f)
    (capacity : Nat) (b : FailureBuffer) : buffer capacity b e = b.record capacity f := by
  match e with
  | .performed _ _ =>
    cases h
    rfl

theorem buffer_of_not_handed {e : SessionEvent} (h : e.handed? = none)
    (hcollects : e.collects = false) (capacity : Nat) (b : FailureBuffer) :
    buffer capacity b e = b := by
  match e with
  | .performed _ _ =>
    cases h
    rfl
  | .announced _ | .sent _ | .refused _ | .taken _ | .finished | .looked _ => rfl

end SessionEvent

namespace Traffic

open SessionEvent

variable {settings : SessionSettings} {store : Store} {server : String}
variable {before after trace : List (Store × SessionEvent)} {t u v : Traffic} {e : SessionEvent}

/--
Steps one after the other. Each comes with the store at the time, which others may have changed
since the step before.
-/
inductive SharedRun : Traffic → List (Store × SessionEvent) → Traffic → Prop where
  | nil (t : Traffic) : SharedRun t [] t
  | cons {t u v : Traffic} {store : Store} {e : SessionEvent} {trace : List (Store × SessionEvent)}
    (hstep : Step { t with store := store } e u) (hrun : SharedRun u trace v) :
    SharedRun t ((store, e) :: trace) v

theorem SharedRun.split (h : SharedRun t (before ++ after) v) :
    ∃ u, SharedRun t before u ∧ SharedRun u after v := by
  induction before generalizing t with
  | nil => exact ⟨t, .nil t, h⟩
  | cons e before ih =>
    cases h with
    | cons hstep hrun =>
      obtain ⟨u, hbefore, hafter⟩ := ih hrun
      exact ⟨u, .cons hstep hbefore, hafter⟩

/--
The failure of a write that the store of its time turned down.
-/
def rejection? (server : String) : Store × SessionEvent → Option FailedWrite
  | (store, .performed w _) =>
    match store.apply w with
    | .error status => some ⟨status, w, server⟩
    | .ok _ => none
  | _ => none

/--
The rejections since failures were last taken, in the order in which the writes were applied.
-/
def openRejections (server : String) (trace : List (Store × SessionEvent)) : List FailedWrite :=
  (trace.rtakeWhile fun p => !p.2.collects).filterMap (rejection? server)

theorem openRejections_concat_of_collects (h : e.collects = true) :
    openRejections server (trace ++ [(store, e)]) = [] := by
  unfold openRejections
  rw [List.rtakeWhile_concat_neg _ _ _ (by simp [h]), List.filterMap_nil]

theorem openRejections_concat (h : e.collects = false) :
    openRejections server (trace ++ [(store, e)])
      = openRejections server trace ++ (rejection? server (store, e)).toList := by
  unfold openRejections
  rw [List.rtakeWhile_concat_pos _ _ _ (by simp [h]), filterMap_concat]

theorem rejection?_step (hstep : Step { t with store := store } e u) :
    rejection? t.session.settings.server (store, e) = e.handed? := by
  cases hstep with
  | accept _ happly => simp [rejection?, happly, handed?]
  | reject _ happly => simp [rejection?, happly, handed?]
  | _ => rfl

/--
The buffer of a step is that of the rejections since failures were last taken.
-/
theorem buffer_ofAll (capacity : Nat) (hstep : Step { t with store := store } e u) :
    SessionEvent.buffer capacity
        (.ofAll capacity (openRejections t.session.settings.server trace)) e
      = .ofAll capacity (openRejections t.session.settings.server (trace ++ [(store, e)])) := by
  cases he : e.collects with
  | true =>
    rw [openRejections_concat_of_collects he, FailureBuffer.ofAll_nil, buffer_of_collects he]
  | false =>
    rw [openRejections_concat he, rejection?_step hstep]
    cases hhanded : e.handed? with
    | none => rw [buffer_of_not_handed hhanded he, Option.toList_none, List.append_nil]
    | some f =>
      rw [buffer_of_handed hhanded, FailureBuffer.record_ofAll, Option.toList_some]

/--
The buffer holds what there is room for of the rejections since failures were last taken, and what
was sent has been applied in this order, up to what the flusher has still to apply.
-/
structure Accounted (settings : SessionSettings) (trace : List (Store × SessionEvent))
    (t : Traffic) : Prop where
  settings_eq : t.session.settings = settings
  errors_eq : t.session.errors
    = .ofAll settings.errorCapacity (openRejections settings.server trace)
  sent_eq : trace.filterMap (·.2.sent?) = trace.filterMap (·.2.performed?) ++ t.session.todo

theorem Accounted.step (h : Accounted settings trace t)
    (hstep : Step { t with store := store } e u) :
    Accounted settings (trace ++ [(store, e)]) u := by
  constructor
  case settings_eq => rw [settings_step hstep, h.settings_eq]
  case errors_eq =>
    rw [errors_step hstep, h.errors_eq, ← h.settings_eq, buffer_ofAll _ hstep]
  case sent_eq =>
    rw [filterMap_concat, filterMap_concat, h.sent_eq, List.append_assoc, todo_step hstep,
      List.append_assoc]

theorem Accounted.run (h : Accounted settings before t) (hrun : SharedRun t trace u) :
    Accounted settings (before ++ trace) u := by
  induction hrun generalizing before with
  | nil t => simpa using h
  | cons hstep _ ih => simpa using ih (h.step hstep)

theorem accounted_start (settings : SessionSettings) (closed : Bool) (store : Store) :
    Accounted settings [] (start settings closed store) := by
  constructor
  case errors_eq => exact (FailureBuffer.ofAll_nil _).symm
  all_goals rfl

theorem Accounted.errorCount_eq (h : Accounted settings trace t) :
    t.session.errorCount
      = min settings.errorCapacity (openRejections settings.server trace).length := by
  rw [Session.errorCount, h.errors_eq, FailureBuffer.ofAll, List.length_take]

theorem collected_step {b : FailureBuffer} (hstep : Step t (.collected b) u) :
    b = t.session.errors ∧ u.session.errors = {} := by
  generalize he : collected b = e at hstep
  cases hstep with
  | collect =>
    cases he
    exact ⟨rfl, rfl⟩
  | _ => contradiction

/--
A caller who takes the failures that are kept gets the first ones of the writes that were turned
down since failures were last taken, in the order in which these were applied, as many as there is
room for, and is told whether there were more. The buffer is empty then. At any time, the count of
failures is the number of those that the next caller would get.
-/
theorem SharedRun.exact_account {closed : Bool}
    (h : SharedRun (start settings closed store) trace t) :
    (∀ before x b after, trace = before ++ (x, .collected b) :: after →
      b.failures = (openRejections settings.server before).take settings.errorCapacity
      ∧ (b.overflowed = true
          ↔ settings.errorCapacity < (openRejections settings.server before).length)
      ∧ ∃ u, SharedRun (start settings closed store) (before ++ [(x, .collected b)]) u
          ∧ SharedRun u after t ∧ u.session.errors = {})
    ∧ (t.session.errorCount
        = min settings.errorCapacity (openRejections settings.server trace).length
      ∧ ∃ b u, Step t (.collected b) u ∧ b.failures.length = t.session.errorCount)
    ∧ trace.filterMap (·.2.performed?) <+: trace.filterMap (·.2.sent?) := by
  have haccounted : Accounted settings trace t := (accounted_start settings closed store).run h
  refine ⟨?_, ⟨haccounted.errorCount_eq, _, _, .collect t, rfl⟩, _, haccounted.sent_eq.symm⟩
  rintro before x b after rfl
  rw [← List.singleton_append, ← List.append_assoc] at h
  obtain ⟨u, hbefore, hafter⟩ := h.split
  obtain ⟨s, hrun, hcollect⟩ := hbefore.split
  have haccounted : Accounted settings before s := (accounted_start settings closed store).run hrun
  have hstep : Step { s with store := x } (.collected b) u := by
    cases hcollect with
    | cons hstep hnil =>
      cases hnil
      exact hstep
  obtain ⟨hb, hempty⟩ := collected_step hstep
  rw [haccounted.errors_eq] at hb
  refine ⟨by rw [hb]; rfl, ?_, u, hbefore, hafter, hempty⟩
  rw [hb]
  exact decide_eq_true_iff

/--
The settings of a session that keeps one failure.
-/
def narrow : SessionSettings where
  errorCapacity := 1
  server := "memory-ts-9"

def missed (id : Int32) : FailedWrite :=
  ⟨⟨.notFound, "key not found"⟩, placeWrite .update "a" id, "memory-ts-9"⟩

/--
Two updates find no row, and there is room for one failure. When failures have been taken, another
user of the store makes a row, and the third update finds it.
-/
def draining : List (Store × SessionEvent) :=
  let others := emptyPlaces.applied (placeWrite .insert "a" 3)
  [(emptyPlaces, .announced (placeWrite .update "a" 1)),
    (emptyPlaces, .sent (placeWrite .update "a" 1)),
    (emptyPlaces, .taken (placeWrite .update "a" 1)),
    (emptyPlaces, .performed (placeWrite .update "a" 1) (some (missed 1))),
    (emptyPlaces, .announced (placeWrite .update "a" 2)),
    (emptyPlaces, .sent (placeWrite .update "a" 2)),
    (emptyPlaces, .finished),
    (emptyPlaces, .taken (placeWrite .update "a" 2)),
    (emptyPlaces, .performed (placeWrite .update "a" 2) (some (missed 2))),
    (emptyPlaces, .collected ⟨[missed 1], true⟩),
    (others, .finished),
    (others, .announced (placeWrite .update "a" 3)),
    (others, .sent (placeWrite .update "a" 3)),
    (others, .taken (placeWrite .update "a" 3)),
    (others, .performed (placeWrite .update "a" 3) none),
    (others, .collected ⟨[], false⟩)]

theorem run_draining_exact :
    ∃ t, SharedRun (start narrow false emptyPlaces) draining t
      ∧ (openRejections narrow.server (draining.take 9)).take 1 = [missed 1]
      ∧ narrow.errorCapacity < (openRejections narrow.server (draining.take 9)).length
      ∧ (openRejections narrow.server (draining.take 15)).take 1 = []
      ∧ t.session.errorCount = min 1 (openRejections narrow.server draining).length := by
  obtain ⟨t, hrun⟩ : ∃ t, SharedRun (start narrow false emptyPlaces) draining t :=
    ⟨_, .cons (.announce _ _) <| .cons (.send [] rfl rfl) <| .cons (.take rfl rfl) <|
      .cons (.reject rfl rfl) <| .cons (.announce _ _) <| .cons (.send [] rfl rfl) <|
      .cons (.finish rfl) <| .cons (.take rfl rfl) <| .cons (.reject rfl rfl) <|
      .cons (.collect _) <| .cons (.finish rfl) <| .cons (.announce _ _) <|
      .cons (.send [] rfl rfl) <| .cons (.take rfl rfl) <| .cons (.accept rfl rfl) <|
      .cons (.collect _) <| .nil _⟩
  obtain ⟨hcollected, ⟨hcount, -⟩, -⟩ := hrun.exact_account
  obtain ⟨hfailures, hoverflowed, -⟩ := hcollected (draining.take 9) _ _ (draining.drop 10) rfl
  obtain ⟨hnone, -⟩ := hcollected (draining.take 15) _ _ [] rfl
  exact ⟨t, hrun, hfailures.symm, hoverflowed.1 rfl, hnone.symm, hcount⟩

end Traffic

end KeyedTables
