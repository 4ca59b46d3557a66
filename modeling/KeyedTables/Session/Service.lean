import KeyedTables.Session.Connection

/-!
This module contains services: a store, the sessions that write to it, and a connection, on a clock
that stands still as long as anybody can go on.

Sessions make progress only while somebody waits. A flusher that is idle then takes its next write,
holds it for the delay of its session, applies it, and takes the next one. While all wait, the clock
jumps to the next moment at which a write is applied or a wait ends. A write that is sent at time
`t` is thus applied at the end of the delay that starts at `t`, or when the one before is applied,
whichever is later.
-/

namespace KeyedTables

/--
A session, and the time until which its flusher holds the write that it has taken.
-/
structure Slot where
  session : Session
  due : Nat := 0

namespace Slot

/--
Let the flusher finish a write that it has applied, and take the next one at time `now`.
-/
def begin (s : Slot) (now : Nat) : Slot :=
  let session := s.session.finish
  match session.flusher, session.queue with
  | .idle, _ :: _ => ⟨session.take, now + session.settings.delay?.getD 0⟩
  | _, _ => { s with session := session }

def due? (s : Slot) : Option Nat :=
  match s.session.flusher with
  | .holding _ => some s.due
  | _ => none

end Slot

/--
A session as callers refer to it: its place among the sessions of a service, and whether they reach
it through the gate of the connection.
-/
structure SessionRef where
  slot : Nat := 0
  gated : Bool := false

/--
A store with its sessions, its connection and its clock, which counts milliseconds. The first
session is the one that the connection hands out.
-/
structure Service where
  store : Store := {}
  slots : List Slot := [⟨{}, 0⟩]
  connection : Connection := {}
  clock : Nat := 0

inductive Wake where
  /-- The session has nothing outstanding. -/
  | drained
  /-- The time is up. -/
  | expired
  deriving DecidableEq

namespace Service

/--
A service without tables, whose connection hands out a session with the given settings.
-/
def start (settings : SessionSettings) (connection : Connection) : Service :=
  { slots := [⟨{ settings := settings }, 0⟩], connection := connection }

/-!
# Sessions
-/

def openSession (s : Service) (settings : SessionSettings) (closed : Bool) : SessionRef × Service :=
  (⟨s.slots.length, false⟩,
    { s with slots := s.slots ++ [⟨{ settings := settings, closed := closed }, 0⟩] })

def connectionSession (s : Service) : Except StoreError SessionRef :=
  match s.connection.outage.session? with
  | some e => .error e
  | none => .ok ⟨0, true⟩

/--
The session in a slot. A slot that does not exist has a closed one.
-/
def session (s : Service) (slot : Nat) : Session :=
  match s.slots[slot]? with
  | some t => t.session
  | none => { closed := true }

def channel (s : Service) (r : SessionRef) : Channel :=
  ⟨s.session r.slot, if r.gated then s.connection.gate else {}⟩

def setSession (s : Service) (slot : Nat) (session : Session) : Service :=
  { s with slots := s.slots.modify slot fun t => { t with session := session } }

/--
Put a session, and the gate that it was reached through, in place of what was there.
-/
def setChannel (s : Service) (r : SessionRef) (c : Channel) : Service :=
  let s := s.setSession r.slot c.session
  if r.gated then { s with connection := { s.connection with gate := c.gate } } else s

def submit (s : Service) (r : SessionRef) (w : Write) : Except StoreError Unit × Service :=
  let (result, c) := (s.channel r).submit w
  (result, s.setChannel r c)

def collect (s : Service) (r : SessionRef) : FailureBuffer × Service :=
  let (buffer, session) := (s.session r.slot).collect
  (buffer, s.setSession r.slot session)

/-!
# Time
-/

def beginAll (s : Service) : Service :=
  { s with slots := s.slots.map (·.begin s.clock) }

/--
The slot in which the next write is applied, and when. Slots are numbered from `first`.
-/
def earliest? (first : Nat) : List Slot → Option (Nat × Nat)
  | [] => none
  | t :: ts =>
    match t.due?, earliest? (first + 1) ts with
    | some due, some (i, due') => if due ≤ due' then some (first, due) else some (i, due')
    | some due, none => some (first, due)
    | none, rest => rest

/--
Apply the write that is held in a slot, and let its flusher take the next one.
-/
def completeAt (s : Service) (slot : Nat) (due : Nat) : Service :=
  match s.slots[slot]? with
  | none => s
  | some t =>
    let now := max s.clock due
    let (session, store) := t.session.complete s.store
    { s with
      store := store
      clock := now
      slots := s.slots.set slot (Slot.begin ⟨session, t.due⟩ now) }

/--
The session in the slot has nothing outstanding.
-/
def isDrained (s : Service) (slot : Nat) : Bool :=
  !(s.session slot).hasPending

/--
The number of writes that are still to be applied.
-/
def workload (s : Service) : Nat :=
  s.slots.foldr (fun t n => t.session.workload + n) 0

/--
Nothing can go on any more. Let the time pass, if a wait has an end.
-/
def rest (s : Service) (deadline? : Option Nat) (drained : Bool) : Wake × Service :=
  match drained, deadline? with
  | false, some deadline => (.expired, { s with clock := max s.clock deadline })
  | _, _ => (.drained, s)

/--
Let the sessions go on until the one in the slot has nothing outstanding, or until the deadline.
Everything that is due by then at that very time is done as well, but at a deadline nothing is. The
fuel is the number of writes that are still to be applied.
-/
def runUntil (slot? : Option Nat) (deadline? : Option Nat) : Nat → Service → Wake × Service
  | 0, s => s.rest deadline? ((slot?.map s.isDrained).getD false)
  | fuel + 1, s =>
    let drained := (slot?.map s.isDrained).getD false
    match earliest? 0 s.slots with
    | none => s.rest deadline? drained
    | some (i, due) =>
      if drained && decide (s.clock < due) then
        (.drained, s)
      else
        match deadline? with
        | some deadline =>
          if deadline ≤ due then (.expired, { s with clock := max s.clock deadline })
          else runUntil slot? deadline? fuel (s.completeAt i due)
        | none => runUntil slot? deadline? fuel (s.completeAt i due)

/--
Wait until the session in the slot has nothing outstanding, at most for the given number of
milliseconds.
-/
def waitDrained (s : Service) (slot : Nat) (limit? : Option Nat) : Wake × Service :=
  if s.isDrained slot then (.drained, s)
  else
    let s := s.beginAll
    runUntil (some slot) (limit?.map (s.clock + ·)) s.workload s

def sleep (s : Service) (milliseconds : Nat) : Service :=
  let s := s.beginAll
  (runUntil none (some (s.clock + milliseconds)) s.workload s).2

def flush (s : Service) (r : SessionRef) : Except StoreError Unit × Service :=
  match (s.channel r).gate.waitError? with
  | some e => (.error e, s)
  | none => (.ok (), (s.waitDrained r.slot none).2)

/-!
# Batches
-/

/--
Let a batch wait, if it does, and go on when nothing is outstanding.
-/
def awaitBatch (policy : BatchPolicy) (r : SessionRef) :
    BatchStage × Service → BatchStage × Service
  | (.ended result, s) => (.ended result, s)
  | (stage, s) =>
    match (s.channel r).gate.waitError? with
    | some e => (.ended (.error (.store e)), s)
    | none =>
      match s.waitDrained r.slot (policy.timeout?.map Duration.ticks), policy.timeout? with
      | (.expired, s), some timeout => (.expired timeout, s)
      | (_, s), _ =>
        let (stage, c) := stage.resume policy (s.channel r)
        (stage, s.setChannel r c)

/--
Apply a batch. It waits at most twice: for what was outstanding, and for its own writes.
-/
def applyBatch (s : Service) (policy : BatchPolicy) (r : SessionRef) (ws : List Write) :
    Except TransferError Unit × Service :=
  let (stage, c) := BatchStage.start ws (s.channel r)
  match awaitBatch policy r (awaitBatch policy r (stage, s.setChannel r c)) with
  | (.ended result, s) => (result, s)
  | (_, s) => (.ok (), s)

end Service

end KeyedTables
