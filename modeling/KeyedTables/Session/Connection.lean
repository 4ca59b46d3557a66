import KeyedTables.Session.Batch
import KeyedTables.Store.Scan

/-!
This module contains connections to a store: the credentials that they export, the scans that were
opened through them, and the calls that fail on them.
-/

namespace KeyedTables

/--
Calls that fail on a connection, with their errors.
-/
structure Outage where
  session? : Option StoreError := none
  openTable? : Option StoreError := none
  openScan? : Option StoreError := none
  /-- The number of pages that each scan can read, and the error after that. -/
  pages? : Option (Nat × StoreError) := none

structure Connection where
  credentials? : Option (List UInt8) := none
  /-- The scans that were opened so far. -/
  requests : List ScanRequest := []
  outage : Outage := {}
  /-- What stands before the sessions that the connection hands out. -/
  gate : Gate := {}

namespace Connection

def openTable (c : Connection) (store : Store) (name : String) : Except StoreError TableHandle :=
  match c.outage.openTable? with
  | some e => .error e
  | none => store.openTable name

/--
Open a scan of the rows that the store has now. The scan is noted if it can be opened.
-/
def openCursor (c : Connection) (store : Store) (r : ScanRequest) :
    Except StoreError Cursor × Connection :=
  match c.outage.openScan? with
  | some e => (.error e, c)
  | none =>
    match store.openCursor r with
    | .error e => (.error e, c)
    | .ok cursor =>
      (.ok { cursor with allowance? := c.outage.pages? },
        { c with requests := c.requests ++ [r] })

/--
Export the credentials with which others can log in as this client.
-/
def exportCredentials (c : Connection) : Except StoreError (List UInt8) :=
  match c.credentials? with
  | some bytes => .ok bytes
  | none => .error (.authenticationFailed "client has no credentials")

end Connection

end KeyedTables
