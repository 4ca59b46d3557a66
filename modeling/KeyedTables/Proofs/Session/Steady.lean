import KeyedTables.Session.Basic
import KeyedTables.Proofs.Store.Rows

/-!
This module contains what a session still has to do, and what it will be when it has done it. A
flusher that performs the next write leaves both unchanged.
-/

namespace KeyedTables

namespace FailureBuffer

def recordAll (b : FailureBuffer) (capacity : Nat) (failures : List FailedWrite) : FailureBuffer :=
  failures.foldl (fun b f => b.record capacity f) b

@[simp]
theorem recordAll_nil (b : FailureBuffer) (capacity : Nat) : b.recordAll capacity [] = b := by
  rfl

@[simp]
theorem recordAll_cons (b : FailureBuffer) (capacity : Nat) (f : FailedWrite)
    (failures : List FailedWrite) :
    b.recordAll capacity (f :: failures) = (b.record capacity f).recordAll capacity failures := by
  rfl

theorem failures_recordAll {b : FailureBuffer} {capacity : Nat}
    (h : b.failures.length ≤ capacity) (failures : List FailedWrite) :
    (b.recordAll capacity failures).failures = (b.failures ++ failures).take capacity := by
  induction failures generalizing b with
  | nil =>
    rw [recordAll_nil, List.append_nil, List.take_of_length_le h]
  | cons f failures ih =>
    rw [recordAll_cons]
    unfold record
    split
    . next hroom =>
      rw [ih (by simp; omega)]
      simp
    . next hfull =>
      have heq : capacity = b.failures.length := by omega
      rw [ih (by simpa using h), heq]
      simp

end FailureBuffer

namespace Session

/--
The writes that the flusher has still to apply, in the order in which it does.
-/
def todo (x : Session) : List Write :=
  match x.flusher with
  | .holding w => w :: x.queue
  | _ => x.queue

/--
The number of writes that the flusher has taken and not yet finished.
-/
def inHand (x : Session) : Nat :=
  match x.flusher with
  | .idle => 0
  | _ => 1

/--
The count of outstanding writes is that of those in the queue and in the hands of the flusher.
-/
def Exact (x : Session) : Prop :=
  x.outstanding = x.queue.length + x.inHand

/--
The flusher is not between applying a write and counting it as finished, and exactly the writes that
it has still to apply are outstanding.
-/
structure Steady (x : Session) : Prop where
  flusher_ne : x.flusher ≠ .finishing
  outstanding_eq : x.outstanding = x.todo.length

variable {x : Session} {w : Write} {ws : List Write}

def failures (x : Session) (rejections : List (Write × Status)) : List FailedWrite :=
  rejections.map fun (w, status) => ⟨status, w, x.settings.server⟩

/--
The session after all its writes have been applied to a store.
-/
def settled (x : Session) (store : Store) : Session :=
  { x with
    outstanding := 0
    queue := []
    flusher := .idle
    errors := x.errors.recordAll x.settings.errorCapacity (x.failures (store.rejections x.todo)) }

theorem workload_eq (x : Session) : x.workload = x.todo.length := by
  unfold workload todo
  cases x.flusher <;> rfl

theorem Steady.hasPending_eq (hx : x.Steady) : x.hasPending = decide (x.todo ≠ []) := by
  unfold hasPending
  rw [hx.outstanding_eq]
  simp [List.length_pos_iff]

theorem Steady.todo_eq_nil (hx : x.Steady) (hout : x.outstanding = 0) : x.todo = [] := by
  rw [← List.length_eq_zero_iff, ← hx.outstanding_eq]
  exact hout

theorem Steady.idle_of_todo (hx : x.Steady) (h : x.todo = []) :
    x.flusher = .idle ∧ x.queue = [] := by
  have hne := hx.flusher_ne
  unfold todo at h
  cases hflusher : x.flusher with
  | idle => simpa [hflusher] using h
  | holding w => simp [hflusher] at h
  | finishing => exact absurd hflusher hne

theorem Steady.settled_eq (hx : x.Steady) (h : x.todo = []) (store : Store) :
    x.settled store = x := by
  obtain ⟨hflusher, hqueue⟩ := hx.idle_of_todo h
  have hout := hx.outstanding_eq
  unfold settled
  rw [h] at hout ⊢
  cases x
  simp_all [Store.rejections, failures]

theorem Exact.idle (hx : x.Exact) (hout : x.outstanding = 0) : x.flusher = .idle ∧ x.queue = [] := by
  unfold Exact inHand at hx
  rw [hout] at hx
  cases hflusher : x.flusher with
  | idle =>
    rw [hflusher] at hx
    exact ⟨rfl, List.eq_nil_of_length_eq_zero hx.symm⟩
  | holding w =>
    rw [hflusher] at hx
    contradiction
  | finishing =>
    rw [hflusher] at hx
    contradiction

theorem Exact.steady (hx : x.Exact) (hout : x.outstanding = 0) : x.Steady := by
  obtain ⟨hflusher, hqueue⟩ := hx.idle hout
  constructor
  case flusher_ne => simp [hflusher]
  case outstanding_eq => simp [todo, hflusher, hqueue, hout]

theorem Exact.todo_eq (hx : x.Exact) (hout : x.outstanding = 0) : x.todo = [] :=
  (hx.steady hout).todo_eq_nil hout

theorem Steady.exact (hx : x.Steady) : x.Exact := by
  have hne := hx.flusher_ne
  unfold Exact inHand
  rw [hx.outstanding_eq]
  unfold todo
  cases hflusher : x.flusher with
  | idle => rfl
  | holding w => rfl
  | finishing => exact absurd hflusher hne

/-!
# Finishing a write
-/

theorem finish_of_finishing (h : x.flusher = .finishing) :
    x.finish = { x with flusher := .idle, outstanding := x.outstanding - 1 } := by
  unfold finish
  rw [h]

theorem finish_of_ne (h : x.flusher ≠ .finishing) : x.finish = x := by
  unfold finish
  split
  . next hfinishing => exact absurd hfinishing h
  . rfl

theorem flusher_finish_ne (x : Session) : x.finish.flusher ≠ .finishing := by
  by_cases h : x.flusher = .finishing
  . simp [finish_of_finishing h]
  . rwa [finish_of_ne h]

@[simp]
theorem finish_finish (x : Session) : x.finish.finish = x.finish :=
  finish_of_ne x.flusher_finish_ne

@[simp]
theorem todo_finish (x : Session) : x.finish.todo = x.todo := by
  by_cases h : x.flusher = .finishing
  . simp [finish_of_finishing h, todo, h]
  . rw [finish_of_ne h]

theorem settled_finish (x : Session) (store : Store) : x.finish.settled store = x.settled store := by
  unfold settled
  rw [todo_finish]
  unfold finish
  split <;> rfl

theorem Exact.steady_finish (hx : x.Exact) : x.finish.Steady := by
  refine ⟨x.flusher_finish_ne, ?_⟩
  unfold Exact inHand at hx
  rw [todo_finish]
  cases hflusher : x.flusher <;> simp [finish, todo, hflusher, hx]

/-!
# Taking a write
-/

@[simp]
theorem todo_take (x : Session) : x.take.todo = x.todo := by
  unfold take
  split
  . next hflusher hqueue => simp [todo, hflusher, hqueue]
  . rfl

@[simp]
theorem take_take (x : Session) : x.take.take = x.take := by
  cases hflusher : x.flusher with
  | idle => cases hqueue : x.queue <;> simp [take, hflusher, hqueue]
  | holding w => simp [take, hflusher]
  | finishing => simp [take, hflusher]

theorem settled_take (x : Session) (store : Store) : x.take.settled store = x.settled store := by
  unfold settled
  rw [todo_take]
  unfold take
  split <;> rfl

theorem steady_take (hx : x.Steady) : x.take.Steady := by
  constructor
  case flusher_ne =>
    unfold take
    split
    . simp
    . exact hx.flusher_ne
  case outstanding_eq =>
    rw [todo_take, ← hx.outstanding_eq]
    unfold take
    split <;> rfl

/--
A flusher that has taken a write, if there is one, holds the first of those to be applied.
-/
theorem holding_of_todo_take (hx : x.Steady) (h : x.todo = w :: ws) :
    x.take.flusher = .holding w := by
  have hne := hx.flusher_ne
  unfold todo at h
  unfold take
  cases hflusher : x.flusher with
  | idle => simp_all
  | holding v => simp_all
  | finishing => exact absurd hflusher hne

/-!
# Performing a write
-/

variable {store store' : Store} {status : Status}

theorem complete_of_ok (h : x.flusher = .holding w) (happly : store.apply w = .ok store') :
    x.complete store =
      ({ x with flusher := .idle, outstanding := x.outstanding - 1 }, store') := by
  unfold complete perform finish
  simp [h, happly]

theorem complete_of_error (h : x.flusher = .holding w) (happly : store.apply w = .error status) :
    x.complete store =
      ({ x with
          flusher := .idle
          outstanding := x.outstanding - 1
          errors := x.errors.record x.settings.errorCapacity ⟨status, w, x.settings.server⟩ },
        store) := by
  unfold complete perform finish
  simp [h, happly]

theorem store_complete (h : x.flusher = .holding w) :
    (x.complete store).2 = store.applied w := by
  cases happly : store.apply w with
  | ok store' => rw [complete_of_ok h happly, Store.applied_of_ok happly]
  | error status => rw [complete_of_error h happly, Store.applied_of_error happly]

theorem todo_of_holding (h : x.flusher = .holding w) : x.todo = w :: x.queue := by
  unfold todo
  rw [h]

theorem todo_complete (h : x.flusher = .holding w) : (x.complete store).1.todo = x.queue := by
  cases happly : store.apply w with
  | ok store' => rw [complete_of_ok h happly, todo]
  | error status => rw [complete_of_error h happly, todo]

theorem steady_complete (hx : x.Steady) (h : x.flusher = .holding w) :
    (x.complete store).1.Steady := by
  have hout : x.outstanding = x.queue.length + 1 := by
    rw [hx.outstanding_eq, todo_of_holding h, List.length_cons]
  constructor
  case flusher_ne =>
    cases happly : store.apply w with
    | ok store' => simp [complete_of_ok h happly]
    | error status => simp [complete_of_error h happly]
  case outstanding_eq =>
    rw [todo_complete h]
    cases happly : store.apply w with
    | ok store' => simp [complete_of_ok h happly, hout]
    | error status => simp [complete_of_error h happly, hout]

theorem settled_complete (h : x.flusher = .holding w) :
    (x.complete store).1.settled (store.applied w) = x.settled store := by
  unfold settled
  rw [todo_complete h, todo_of_holding h]
  cases happly : store.apply w with
  | ok store' =>
    rw [complete_of_ok h happly, Store.rejections_cons_of_ok happly]
    rfl
  | error status =>
    -- the failure that is recorded now is the first of those that were to come
    rw [complete_of_error h happly, Store.rejections_cons_of_error happly]
    rfl

end Session

end KeyedTables
