import KeyedTables.Store.Basic

/-!
This module contains write sessions. A session takes writes at once and keeps them in a queue, from
which a flusher applies them to the store one by one, in the order in which they were sent. Writes
that the store turns down are kept in a buffer until somebody collects them.

Everything that a session does is one of a few small steps, which callers and the flusher may take
in any order: a caller announces a write and then sends it, the flusher takes a write, performs it
and finishes it, a caller looks at the count of outstanding writes, and a caller collects the
failures.
-/

namespace KeyedTables

/--
The number of failures that a session keeps unless it is told otherwise.
-/
def defaultErrorCapacity : Nat := 1000

/--
The settings of a session: how many failures it keeps, for how many milliseconds it holds a write
before it applies it, and the name of the server that it shows on failures.
-/
structure SessionSettings where
  errorCapacity : Nat := defaultErrorCapacity
  delay? : Option Nat := none
  server : String := "memory-ts-0"
  deriving DecidableEq

/--
What the flusher of a session is doing.
-/
inductive Flusher where
  /-- It waits for a write. -/
  | idle
  /-- It holds a write that it has not yet applied. -/
  | holding (w : Write)
  /-- It has applied a write that still counts as outstanding. -/
  | finishing

/--
A write session.
-/
structure Session where
  settings : SessionSettings := {}
  /-- The number of outstanding writes: announced and not yet finished. -/
  outstanding : Nat := 0
  /-- The writes that were sent and not yet taken. -/
  queue : List Write := []
  flusher : Flusher := .idle
  errors : FailureBuffer := {}
  /-- There is no flusher any more. -/
  closed : Bool := false

namespace Session

def hasPending (s : Session) : Bool :=
  decide (0 < s.outstanding)

def errorCount (s : Session) : Nat :=
  s.errors.failures.length

/-!
# Steps of callers
-/

/--
Count a write as outstanding before it is sent.
-/
def announce (s : Session) : Session :=
  { s with outstanding := s.outstanding + 1 }

/--
Send an announced write. A session without a flusher does not take it, and it no longer counts.
-/
def send (s : Session) (w : Write) : Except StoreError Unit × Session :=
  if s.closed then (.error .sessionClosed, { s with outstanding := s.outstanding - 1 })
  else (.ok (), { s with queue := s.queue ++ [w] })

def submit (s : Session) (w : Write) : Except StoreError Unit × Session :=
  s.announce.send w

/--
Take the failures that are kept, and whether there was no room for some. The buffer is empty
afterwards.
-/
def collect (s : Session) : FailureBuffer × Session :=
  (s.errors, { s with errors := {} })

/-!
# Steps of the flusher
-/

def take (s : Session) : Session :=
  match s.flusher, s.queue with
  | .idle, w :: ws => { s with flusher := .holding w, queue := ws }
  | _, _ => s

/--
Apply the write that is held to the store, and keep it if it is turned down.
-/
def perform (s : Session) (store : Store) : Session × Store :=
  match s.flusher with
  | .holding w =>
    match store.apply w with
    | .ok store => ({ s with flusher := .finishing }, store)
    | .error status =>
      ({ s with
          flusher := .finishing
          errors := s.errors.record s.settings.errorCapacity ⟨status, w, s.settings.server⟩ },
        store)
  | _ => (s, store)

def finish (s : Session) : Session :=
  match s.flusher with
  | .finishing => { s with flusher := .idle, outstanding := s.outstanding - 1 }
  | _ => s

def complete (s : Session) (store : Store) : Session × Store :=
  let (s, store) := s.perform store
  (s.finish, store)

/--
The number of writes that the flusher has still to apply.
-/
def workload (s : Session) : Nat :=
  s.queue.length +
    match s.flusher with
    | .holding _ => 1
    | _ => 0

end Session

end KeyedTables
