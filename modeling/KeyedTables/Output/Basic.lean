import KeyedTables.Transfer.Dataset
import KeyedTables.Transfer.Lookup
import KeyedTables.Transfer.Planned
import KeyedTables.Output.Settings
import KeyedTables.Session.Service

/-!
This module contains outputs, through which a pipeline writes planned rows and datasets to the table
of a configuration and looks up the rows that exist there.
-/

namespace KeyedTables

/--
The writing of one dataset as one kind of write.
-/
structure BulkCall where
  kind : WriteKind
  dataset : Dataset
  table : String
  ignoreDuplicates : Bool

structure Output where
  settings : OutputSettings
  lookup : Lookup := {}

namespace Output

/--
The name that outputs of this kind are registered under.
-/
def registeredName : String := "colstore"

def make (settings : OutputSettings) : Except TransferError Output :=
  match settings.problem? with
  | some problem => .error (.invalidSettings problem.message)
  | none => .ok { settings := settings }

def batchPolicy (o : Output) : BatchPolicy :=
  ⟨o.settings.applyTimeout?, o.settings.insertIgnore⟩

/--
Open a table through the connection of a service.
-/
def openTable (s : Service) (name : String) : Except TransferError TableHandle :=
  match s.connection.openTable s.store name with
  | .ok t => .ok t
  | .error e => .error (.store e)

/-!
# Planned rows
-/

/--
Apply planned rows as one batch. Nothing is sent if a row has no write.
-/
def applyPlanned [Calendar] (o : Output) (rows : List Row) (s : Service) :
    Except TransferError Unit × Service :=
  match s.connectionSession with
  | .error e => (.error (.store e), s)
  | .ok session =>
    match openTable s o.settings.tableName with
    | .error e => (.error e, s)
    | .ok t =>
      match Row.toWrites t o.settings.ignoreMissingColumns rows with
      | .error e => (.error e, s)
      | .ok ws => s.applyBatch o.batchPolicy session ws

/-!
# Lookups
-/

/--
The rows that exist for filter rows. Without filter rows the table is not even opened.
-/
def existing (o : Output) (filters : List Row) (s : Service) :
    Except TransferError (List Row) × Output × Service :=
  if filters.isEmpty then
    (.ok [], o, s)
  else
    match openTable s o.settings.tableName with
    | .error e => (.error e, o, s)
    | .ok t =>
      let (rows, lookup, connection) := o.lookup.run filters t s.store s.connection
      (rows, { o with lookup := lookup }, { s with connection := connection })

/--
The output that accounts for its lookups in the given counters. Counters among which one is absent
are not taken, and the output goes on with those that it had.
-/
def receiveCounters (o : Output) (c : Counters) : Output :=
  match ScanTally.ofCounters? c with
  | some m => { o with lookup := { o.lookup with tally? := some m } }
  | none => o

/-!
# Datasets
-/

/--
Write a dataset through the session of the connection as one batch.
-/
def write (o : Output) (call : BulkCall) (s : Service) :
    Except TransferError Unit × Service :=
  match openTable s call.table with
  | .error e => (.error e, s)
  | .ok t =>
    match call.dataset.writes call.kind t with
    | .error e => (.error e, s)
    | .ok ws =>
      match s.connectionSession with
      | .error e => (.error (.store e), s)
      | .ok session =>
        s.applyBatch { o.batchPolicy with ignoreDuplicates := call.ignoreDuplicates } session ws

/--
The call that writes a dataset for an intent. If names are given, only the fields of these names are
written.
-/
def bulkCall (o : Output) (keep? : Option (List String)) (intent : Intent) (d : Dataset) :
    Except TransferError BulkCall :=
  match intent.writeKind with
  | .error _ => .error (.unsupportedIntent (intent.name ++ " (bulk)"))
  | .ok kind =>
    let d :=
      match keep? with
      | some keep => d.retainFields keep
      | none => d
    .ok ⟨kind, d, o.settings.tableName, o.settings.insertIgnore⟩

/--
The names of the fields that are written, unless all are: those of the table's columns.
-/
def keptFields (o : Output) (s : Service) : Except TransferError (Option (List String)) :=
  if o.settings.ignoreMissingColumns then
    match openTable s o.settings.tableName with
    | .error e => .error e
    | .ok t => .ok (some t.schema.names)
  else
    .ok none

/--
Hand the datasets of a plan to a writer, one after the other, until one fails.
-/
def writeAll (o : Output) (keep? : Option (List String))
    (writer : BulkCall → σ → Except TransferError Unit × σ) :
    List (Intent × Dataset) → σ → Except TransferError Unit × σ
  | [], s => (.ok (), s)
  | (intent, d) :: rest, s =>
    match o.bulkCall keep? intent d with
    | .error e => (.error e, s)
    | .ok call =>
      match writer call s with
      | (.error e, s) => (.error e, s)
      | (.ok (), s) => writeAll o keep? writer rest s

def applyBulk (o : Output) (plan : List (Intent × Dataset)) (s : Service) :
    Except TransferError Unit × Service :=
  match o.keptFields s with
  | .error e => (.error e, s)
  | .ok keep? => writeAll o keep? o.write plan s

/--
The calls that write the datasets of a plan, up to the first one that cannot be made.
-/
def planBulk (o : Output) (plan : List (Intent × Dataset)) (s : Service) :
    Except TransferError Unit × List BulkCall :=
  match o.keptFields s with
  | .error e => (.error e, [])
  | .ok keep? => writeAll o keep? (fun call calls => (.ok (), calls ++ [call])) plan []

end Output

/-!
# Tokens
-/

/--
A source of tokens for a connection, with which other processes can reach the store.
-/
structure TokenSource where
  connection : String
  deriving DecidableEq

namespace TokenSource

/--
A fresh token: the credentials that the client exports.
-/
def obtain (_ : TokenSource) (c : Connection) : Except TransferError (List UInt8) :=
  match c.exportCredentials with
  | .ok bytes => .ok bytes
  | .error e => .error (.store e)

/--
The name of the service that the tokens are for.
-/
def serviceName (_ : TokenSource) : String :=
  Output.registeredName

end TokenSource

/--
The source of tokens of an output, which only a secured store needs.
-/
def Output.tokenSource? (o : Output) : Option TokenSource :=
  if o.settings.secure then some ⟨o.settings.connection⟩ else none

end KeyedTables
