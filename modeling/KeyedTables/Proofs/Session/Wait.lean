import KeyedTables.Session.Service
import KeyedTables.Proofs.Session.Steady

/-!
This module contains what becomes of a service while somebody waits for a session, and no other
session has anything to apply.
-/

namespace KeyedTables

namespace Slot

theorem session_begin (t : Slot) (now : Nat) :
    (t.begin now).session = t.session.finish.take := by
  unfold begin
  generalize t.session.finish = x
  dsimp only
  split
  . rfl
  . next hnone =>
    unfold Session.take
    split
    . next w ws hidle hqueue => exact (hnone w ws hidle hqueue).elim
    . rfl

theorem due?_of_holding {t : Slot} {w : Write} (h : t.session.flusher = .holding w) :
    t.due? = some t.due := by
  unfold due?
  rw [h]

theorem due?_of_todo {t : Slot} (h : t.session.todo = []) : t.due? = none := by
  unfold due?
  split
  . next w hflusher =>
    rw [Session.todo_of_holding hflusher] at h
    contradiction
  . rfl

end Slot

namespace Service

/--
The session that the reference reaches is `x`, nothing stands in front of it, and no other session
has a write to apply.
-/
structure Holds (s : Service) (r : SessionRef) (x : Session) : Prop where
  slot : ∃ due, s.slots[r.slot]? = some ⟨x, due⟩
  gate : r.gated = true → s.connection.gate = {}
  others : ∀ j t, j ≠ r.slot → s.slots[j]? = some t → t.session.todo = []

variable {s : Service} {r : SessionRef} {x : Session}

theorem holds_of_single (store : Store) (x : Session) (due : Nat) :
    Service.Holds { store := store, slots := [⟨x, due⟩] } {} x := by
  constructor
  case slot => exact ⟨due, rfl⟩
  case gate =>
    intro hgated
    contradiction
  case others =>
    intro j t hj ht
    cases j with
    | zero => exact absurd rfl hj
    | succ j => simp at ht

theorem Holds.session_eq (h : s.Holds r x) : s.session r.slot = x := by
  obtain ⟨due, hslot⟩ := h.slot
  unfold session
  rw [hslot]

theorem Holds.channel_eq (h : s.Holds r x) : s.channel r = ⟨x, {}⟩ := by
  unfold channel
  rw [h.session_eq]
  split
  . next hgated => rw [h.gate hgated]
  . rfl

theorem Holds.isDrained_eq (h : s.Holds r x) : s.isDrained r.slot = !x.hasPending := by
  unfold isDrained
  rw [h.session_eq]

@[simp]
theorem store_setChannel (s : Service) (r : SessionRef) (c : Channel) :
    (s.setChannel r c).store = s.store := by
  unfold setChannel
  split <;> rfl

theorem Holds.setChannel (h : s.Holds r x) (y : Session) :
    (s.setChannel r ⟨y, {}⟩).Holds r y := by
  obtain ⟨due, hslot⟩ := h.slot
  have hslots : (s.setChannel r ⟨y, {}⟩).slots
      = s.slots.modify r.slot fun t => { t with session := y } := by
    unfold Service.setChannel
    split <;> rfl
  constructor
  case slot =>
    refine ⟨due, ?_⟩
    rw [hslots, List.getElem?_modify_eq, hslot]
    rfl
  case gate =>
    intro hgated
    unfold Service.setChannel
    rw [if_pos hgated]
  case others =>
    intro j t hj ht
    rw [hslots, List.getElem?_modify_ne _ _ (Ne.symm hj)] at ht
    exact h.others j t hj ht

/-!
# One write
-/

theorem earliest?_eq_none {slots : List Slot} (h : ∀ t ∈ slots, t.due? = none) (first : Nat) :
    earliest? first slots = none := by
  induction slots generalizing first with
  | nil => rfl
  | cons t slots ih =>
    unfold earliest?
    rw [h t List.mem_cons_self]
    exact ih (fun u hu => h u (List.mem_cons_of_mem t hu)) (first + 1)

theorem earliest?_eq_some {slots : List Slot} {i : Nat} {t : Slot} {due : Nat}
    (hslot : slots[i]? = some t) (hdue : t.due? = some due)
    (hothers : ∀ j u, j ≠ i → slots[j]? = some u → u.due? = none) (first : Nat) :
    earliest? first slots = some (first + i, due) := by
  induction slots generalizing i first with
  | nil => simp at hslot
  | cons u slots ih =>
    unfold earliest?
    cases i with
    | zero =>
      have hrest : earliest? (first + 1) slots = none := by
        apply earliest?_eq_none
        intro v hv
        obtain ⟨j, hj⟩ := List.mem_iff_getElem?.mp hv
        exact hothers (j + 1) v (by omega) (by simpa using hj)
      rw [List.getElem?_cons_zero, Option.some.injEq] at hslot
      rw [hslot, hdue, hrest]
      rfl
    | succ i =>
      have hu : u.due? = none := hothers 0 u (by omega) rfl
      have hrest : earliest? (first + 1) slots = some (first + 1 + i, due) := by
        apply ih (by simpa using hslot)
        intro j v hj hv
        exact hothers (j + 1) v (by omega) (by simpa using hv)
      rw [hu, hrest]
      simp only [Option.some.injEq, Prod.mk.injEq, and_true]
      omega

theorem Holds.earliest?_of_todo (h : s.Holds r x) (htodo : x.todo = []) :
    earliest? 0 s.slots = none := by
  apply earliest?_eq_none
  intro t ht
  obtain ⟨j, hj⟩ := List.mem_iff_getElem?.mp ht
  obtain ⟨due, hslot⟩ := h.slot
  apply Slot.due?_of_todo
  cases Nat.decEq j r.slot with
  | isTrue heq =>
    rw [heq, hslot, Option.some.injEq] at hj
    rw [← hj]
    exact htodo
  | isFalse hne => exact h.others j t hne hj

theorem Holds.earliest?_of_holding {w : Write} (h : s.Holds r x) (hx : x.flusher = .holding w) :
    ∃ due, earliest? 0 s.slots = some (r.slot, due) := by
  obtain ⟨due, hslot⟩ := h.slot
  refine ⟨due, ?_⟩
  rw [earliest?_eq_some hslot (Slot.due?_of_holding hx), Nat.zero_add]
  intro j t hj ht
  exact Slot.due?_of_todo (h.others j t hj ht)

theorem Holds.beginAll (h : s.Holds r x) : s.beginAll.Holds r x.finish.take := by
  obtain ⟨due, hslot⟩ := h.slot
  have hslots (j : Nat) :
      s.beginAll.slots[j]? = (s.slots[j]?).map (·.begin s.clock) := by
    unfold Service.beginAll
    rw [List.getElem?_map]
  constructor
  case slot =>
    refine ⟨(Slot.begin ⟨x, due⟩ s.clock).due, ?_⟩
    rw [hslots, hslot, Option.map_some, ← Slot.session_begin ⟨x, due⟩ s.clock]
  case gate => exact h.gate
  case others =>
    intro j t hj ht
    rw [hslots, Option.map_eq_some_iff] at ht
    obtain ⟨u, hu, rfl⟩ := ht
    rw [Slot.session_begin, Session.todo_take, Session.todo_finish]
    exact h.others j u hj hu

/--
When the write that a session holds has been applied, its flusher has taken the next one.
-/
theorem Holds.completeAt (h : s.Holds r x) (due : Nat) :
    (s.completeAt r.slot due).Holds r (x.complete s.store).1.take
      ∧ (s.completeAt r.slot due).store = (x.complete s.store).2 := by
  obtain ⟨due', hslot⟩ := h.slot
  have hlength : r.slot < s.slots.length := (List.getElem?_eq_some_iff.mp hslot).1
  -- the flusher is done with the write, so there is nothing left to finish
  have hbegun : (Slot.begin ⟨(x.complete s.store).1, due'⟩ (max s.clock due)).session
      = (x.complete s.store).1.take := by
    rw [Slot.session_begin]
    exact congrArg Session.take (Session.finish_finish _)
  unfold Service.completeAt
  rw [hslot]
  refine ⟨⟨?_, h.gate, ?_⟩, rfl⟩
  . refine ⟨(Slot.begin ⟨(x.complete s.store).1, due'⟩ (max s.clock due)).due, ?_⟩
    rw [List.getElem?_set_self hlength, ← hbegun]
  . intro j t hj ht
    rw [List.getElem?_set_ne (Ne.symm hj)] at ht
    exact h.others j t hj ht

/-!
# All writes
-/

/--
The service after the session `x` in it has applied all its writes.
-/
structure Settles (s : Service) (r : SessionRef) (x : Session) (s' : Service) : Prop where
  holds : s'.Holds r (x.settled s.store)
  store_eq : s'.store = s.store.appliedAll x.todo

theorem Holds.settles_self (h : s.Holds r x) (hx : x.Steady) (htodo : x.todo = []) :
    s.Settles r x s := by
  constructor
  case holds =>
    rw [hx.settled_eq htodo]
    exact h
  case store_eq =>
    rw [htodo, Store.appliedAll_nil]

theorem Holds.runUntil (h : s.Holds r x) (hx : x.Steady) (htaken : x.take = x) {fuel : Nat}
    (hfuel : x.todo.length ≤ fuel) :
    ∃ s', runUntil (some r.slot) none fuel s = (.drained, s') ∧ s.Settles r x s' := by
  -- the flusher has taken a write whenever there is one, and each step of fuel applies one
  induction fuel generalizing s x with
  | zero =>
    have htodo : x.todo = [] := by
      rw [← List.length_eq_zero_iff]
      omega
    refine ⟨s, ?_, h.settles_self hx htodo⟩
    simp [Service.runUntil, rest]
  | succ fuel ih =>
    unfold Service.runUntil
    cases htodo : x.todo with
    | nil =>
      refine ⟨s, ?_, h.settles_self hx htodo⟩
      rw [h.earliest?_of_todo htodo]
      simp [rest]
    | cons w ws =>
      have hholding : x.flusher = .holding w := by
        rw [← htaken]
        exact Session.holding_of_todo_take hx htodo
      have hpending : x.hasPending = true := by
        rw [hx.hasPending_eq, htodo]
        simp
      obtain ⟨due, hearliest⟩ := h.earliest?_of_holding hholding
      obtain ⟨hholds, hstore⟩ := h.completeAt due
      have hsteady : (x.complete s.store).1.Steady := Session.steady_complete hx hholding
      have hqueue : (x.complete s.store).1.todo = x.queue := Session.todo_complete hholding
      rw [Session.store_complete hholding] at hstore
      have hlength : (x.complete s.store).1.take.todo.length ≤ fuel := by
        rw [Session.todo_of_holding hholding, List.length_cons] at hfuel
        rw [Session.todo_take, hqueue]
        omega
      obtain ⟨s', hrun, hsettles⟩ :=
        ih hholds (Session.steady_take hsteady) (Session.take_take _) hlength
      refine ⟨s', ?_, ?_, ?_⟩
      . rw [hearliest]
        simp [h.isDrained_eq, hpending, hrun]
      . rw [← Session.settled_complete hholding, ← Session.settled_take, ← hstore]
        exact hsettles.holds
      . rw [hsettles.store_eq, hstore, Session.todo_take, hqueue, Session.todo_of_holding hholding,
          Store.appliedAll_cons]

theorem Holds.todo_length_le (h : s.Holds r x) : x.todo.length ≤ s.workload := by
  obtain ⟨due, hslot⟩ := h.slot
  have hmem : ⟨x, due⟩ ∈ s.slots := List.mem_of_getElem? hslot
  unfold workload
  rw [← Session.workload_eq]
  generalize s.slots = slots at hmem
  induction slots with
  | nil => contradiction
  | cons t slots ih =>
    rw [List.foldr_cons]
    cases List.mem_cons.1 hmem with
    | inl heq =>
      rw [← heq]
      apply Nat.le_add_right
    | inr hrest =>
      have := ih hrest
      omega

/--
A wait without an end is over when all writes of the session have been applied.
-/
theorem Holds.waitDrained (h : s.Holds r x) (hx : x.Exact) :
    ∃ s', s.waitDrained r.slot none = (.drained, s') ∧ s.Settles r x s' := by
  unfold Service.waitDrained
  split
  . next hdrained =>
    have hout : x.outstanding = 0 := by
      rw [h.isDrained_eq] at hdrained
      simpa [Session.hasPending] using hdrained
    exact ⟨s, rfl, h.settles_self (hx.steady hout) (hx.todo_eq hout)⟩
  . have hbegun := h.beginAll
    obtain ⟨s', hrun, hsettles⟩ := hbegun.runUntil (Session.steady_take hx.steady_finish)
      (Session.take_take _) hbegun.todo_length_le
    refine ⟨s', hrun, ?_, ?_⟩
    . rw [← Session.settled_finish, ← Session.settled_take]
      exact hsettles.holds
    . rw [hsettles.store_eq, Session.todo_take, Session.todo_finish]
      rfl

end Service

end KeyedTables
