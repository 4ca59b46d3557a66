import KeyedTables.Transfer.Error
import KeyedTables.Session.Basic
import KeyedTables.Time.Duration

/-!
This module contains batches, lists of writes that succeed or fail together.

A batch first waits until the session has nothing outstanding and throws away the failures that
earlier batches left behind. Then it sends its writes in order and waits again. It succeeds if none
of its writes was turned down; otherwise it fails with the first one that was, and the number of
others. While a batch waits, the session goes on, so a batch is a process that is resumed whenever
the session has nothing outstanding.
-/

namespace KeyedTables

/--
What stands between a caller and a session. It lets only so many writes through before it fails, and
it may fail every wait.
-/
structure Gate where
  /-- The number of writes that are still let through, and the error after that. -/
  allowance? : Option (Nat × StoreError) := none
  /-- The error of waiting until nothing is outstanding. -/
  waitError? : Option StoreError := none

/--
A session as a caller reaches it.
-/
structure Channel where
  session : Session
  gate : Gate := {}

namespace Channel

def submit (c : Channel) (w : Write) : Except StoreError Unit × Channel :=
  match c.gate.allowance? with
  | some (0, e) => (.error e, c)
  | some (n + 1, e) =>
    match c.session.submit w with
    | (.ok (), session) => (.ok (), ⟨session, { c.gate with allowance? := some (n, e) }⟩)
    | (.error e', session) => (.error e', { c with session := session })
  | none =>
    let (result, session) := c.session.submit w
    (result, { c with session := session })

/--
Send writes in order until one cannot be sent.
-/
def submitAll (c : Channel) : List Write → Except StoreError Unit × Channel
  | [] => (.ok (), c)
  | w :: ws =>
    match c.submit w with
    | (.ok (), c) => c.submitAll ws
    | (.error e, c) => (.error e, c)

/--
Throw away the failures that the session keeps.
-/
def discardErrors (c : Channel) : Channel :=
  { c with session := c.session.collect.2 }

end Channel

structure BatchPolicy where
  /-- How long a batch waits each time. -/
  timeout? : Option Duration := none
  /-- Writes that were turned down because the row is already present count as done. -/
  ignoreDuplicates : Bool := false

namespace BatchPolicy

/--
The failures that a batch reports.
-/
def reported (p : BatchPolicy) (failures : List FailedWrite) : List FailedWrite :=
  failures.filter fun f => !(p.ignoreDuplicates && decide (f.status.code = .alreadyPresent))

/--
The result of a batch whose writes had these failures.
-/
def judge (p : BatchPolicy) (failures : List FailedWrite) : Except TransferError Unit :=
  match p.reported failures with
  | [] => .ok ()
  | f :: others => .error (.rejected f.status.text f.write.text f.server others.length)

end BatchPolicy

/--
Where a batch stands.
-/
inductive BatchStage where
  /-- It waits for what earlier batches left outstanding. -/
  | clearing (writes : List Write)
  /-- It waits for its own writes. -/
  | settling
  /-- It is over. -/
  | ended (result : Except TransferError Unit)

namespace BatchStage

/--
Send the writes of a batch. If one cannot be sent, the batch is over, and those before it stay sent.
-/
def submit (ws : List Write) (c : Channel) : BatchStage × Channel :=
  match c.submitAll ws with
  | (.ok (), c) => (.settling, c)
  | (.error e, c) => (.ended (.error (.store e)), c)

/--
Start a batch. It need not wait first if the session has neither outstanding writes nor failures.
-/
def start (ws : List Write) (c : Channel) : BatchStage × Channel :=
  if c.session.hasPending || decide (0 < c.session.errorCount) then (.clearing ws, c)
  else submit ws c

/--
Go on with a batch when the session has nothing outstanding. The failures are collected only if
there are some.
-/
def resume (p : BatchPolicy) (stage : BatchStage) (c : Channel) : BatchStage × Channel :=
  match stage with
  | .clearing ws => submit ws c.discardErrors
  | .settling =>
    if 0 < c.session.errorCount then
      let (buffer, session) := c.session.collect
      (.ended (p.judge buffer.failures), { c with session := session })
    else
      (.ended (.ok ()), c)
  | .ended result => (.ended result, c)

/--
The batch waited in vain. The time that it waited is shown in whole milliseconds, in a word of 64
bits.
-/
def expired (timeout : Duration) : BatchStage :=
  .ended (.error (.timedOut (min timeout.milliseconds (2 ^ 64 - 1))))

end BatchStage

end KeyedTables
