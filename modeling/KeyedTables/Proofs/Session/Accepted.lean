import KeyedTables.Proofs.Session.Verdict

/-!
This module contains what can be relied on after a batch: calls to the connection fail as they did
before, and if the batch succeeded and none of its writes could be ignored, all of them were taken.
-/

namespace KeyedTables

namespace Service

variable {policy : BatchPolicy} {r : SessionRef}

/-!
# What a batch does not touch
-/

@[simp]
theorem outage_setChannel (s : Service) (r : SessionRef) (c : Channel) :
    (s.setChannel r c).connection.outage = s.connection.outage := by
  unfold setChannel
  split <;> rfl

@[simp]
theorem connection_completeAt (s : Service) (slot due : Nat) :
    (s.completeAt slot due).connection = s.connection := by
  unfold completeAt
  split <;> rfl

@[simp]
theorem connection_rest (s : Service) (deadline? : Option Nat) (drained : Bool) :
    (s.rest deadline? drained).2.connection = s.connection := by
  unfold rest
  split <;> rfl

theorem connection_runUntil (slot? deadline? : Option Nat) (fuel : Nat) (s : Service) :
    (runUntil slot? deadline? fuel s).2.connection = s.connection := by
  induction fuel generalizing s with
  | zero => simp [runUntil]
  | succ fuel ih =>
    unfold runUntil
    dsimp only
    split
    . simp
    . next i due _ =>
      split
      . rfl
      . split
        . split
          . rfl
          . rw [ih, connection_completeAt]
        . rw [ih, connection_completeAt]

@[simp]
theorem connection_waitDrained (s : Service) (slot : Nat) (limit? : Option Nat) :
    (s.waitDrained slot limit?).2.connection = s.connection := by
  unfold waitDrained
  split
  . rfl
  . rw [connection_runUntil]
    rfl

theorem outage_awaitBatch (p : BatchStage × Service) :
    (awaitBatch policy r p).2.connection.outage = p.2.connection.outage := by
  fun_cases awaitBatch policy r p
  case case1 => rfl
  case case2 => rfl
  case case3 stage s _ _ s' _ _ hwait =>
    have hkept := connection_waitDrained s r.slot (policy.timeout?.map Duration.ticks)
    rw [hwait] at hkept
    exact congrArg Connection.outage hkept
  case case4 stage s _ _ _ s' hwait _ _ _ _ =>
    have hkept := connection_waitDrained s r.slot (policy.timeout?.map Duration.ticks)
    rw [hwait] at hkept
    rw [outage_setChannel]
    exact congrArg Connection.outage hkept

theorem outage_applyBatch (s : Service) (ws : List Write) :
    (s.applyBatch policy r ws).2.connection.outage = s.connection.outage := by
  have hkept : ∀ stage c, (awaitBatch policy r
      (awaitBatch policy r (stage, s.setChannel r c))).2.connection.outage
        = s.connection.outage := by
    intro stage c
    rw [outage_awaitBatch, outage_awaitBatch, outage_setChannel]
  fun_cases Service.applyBatch s policy r ws
  case case1 stage c _ _ _ hbatch => rw [← hkept stage c, hbatch]
  case case2 stage c _ _ _ _ hbatch => rw [← hkept stage c, hbatch]

end Service

/-!
# Batches of writes that cannot be ignored
-/

theorem Store.exists_of_mem_rejections {s : Store} {ws : List Write} {q : Write × Status}
    (h : q ∈ s.rejections ws) : q.1 ∈ ws ∧ ∃ s' : Store, s'.apply q.1 = .error q.2 := by
  induction ws generalizing s with
  | nil => contradiction
  | cons w ws ih =>
    cases happly : s.apply w with
    | ok s' =>
      rw [rejections_cons_of_ok happly] at h
      exact ⟨List.mem_cons_of_mem w (ih h).1, (ih h).2⟩
    | error status =>
      rw [rejections_cons_of_error happly] at h
      cases List.mem_cons.1 h with
      | inl heq =>
        rw [heq]
        exact ⟨List.mem_cons_self, s, happly⟩
      | inr hmem => exact ⟨List.mem_cons_of_mem w (ih hmem).1, (ih hmem).2⟩

namespace Service

variable {policy : BatchPolicy} {r : SessionRef} {s : Service} {x : Session} {ws : List Write}

/--
If no rejection of a batch could be ignored, a batch that succeeds had none, however few failures
the session keeps, as long as it keeps one.
-/
theorem Holds.taken_of_applyBatch (h : s.Holds r x) (hx : x.Steady) (hout : x.outstanding = 0)
    (hopen : x.closed = false) (hcapacity : 0 < x.settings.errorCapacity)
    (htimeout : policy.timeout? = none)
    (hreported : ∀ w ∈ ws, ∀ (s' : Store) status, s'.apply w = .error status →
      ¬ policy.Ignores status)
    (hok : (s.applyBatch policy r ws).1 = .ok ()) :
    s.store.rejections ws = [] ∧ (s.applyBatch policy r ws).2.store = s.store.appliedAll ws := by
  have htodo := hx.todo_eq_nil hout
  obtain ⟨s', happlies, happly⟩ := h.applyBatch hx.exact hopen htimeout ws
  rw [htodo, Store.appliedAll_nil] at happlies happly
  rw [happly] at hok ⊢
  refine ⟨?_, happlies.store_eq⟩
  unfold Session.kept at hok
  rw [Session.judge_failures_eq_ok_iff] at hok
  cases hrejections : s.store.rejections ws with
  | nil => rfl
  | cons q rest =>
    have hq : q ∈ (s.store.rejections ws).take x.settings.errorCapacity := by
      rw [hrejections]
      obtain ⟨n, hn⟩ := Nat.exists_eq_succ_of_ne_zero (Nat.ne_of_gt hcapacity)
      rw [hn]
      exact List.mem_cons_self
    obtain ⟨hmem, store, hstore⟩ := Store.exists_of_mem_rejections (List.mem_of_mem_take hq)
    exact absurd (hok q hq) (hreported q.1 hmem store q.2 hstore)

end Service

end KeyedTables
