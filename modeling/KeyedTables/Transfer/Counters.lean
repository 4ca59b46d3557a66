import KeyedTables.Number.Shortest

/-!
This module contains the counters that a pipeline keeps for an output: named totals, and the ones
among them that account for scans.
-/

namespace KeyedTables

inductive CounterKind where
  | long
  | double
  deriving DecidableEq

structure CounterRequest where
  name : String
  kind : CounterKind
  deriving DecidableEq

/--
Totals by name. The counters of one kind know nothing of those of the other.
-/
structure Counters where
  longs : List (String × Int64) := []
  doubles : List (String × Binary64) := []
  deriving DecidableEq

namespace Counters

def totalOf (name : String) (totals : List (String × α)) : Option α :=
  (totals.find? (·.1 == name)).map (·.2)

/--
Change the totals that are filed under a name.
-/
def change (name : String) (f : α → α) (totals : List (String × α)) : List (String × α) :=
  totals.map fun (n, total) => if n == name then (n, f total) else (n, total)

/--
File a first total under a name that has none yet.
-/
def openTotal (name : String) (first : α) (totals : List (String × α)) : List (String × α) :=
  if totals.any (·.1 == name) then totals else totals ++ [(name, first)]

/--
One more requested counter, which starts at zero. A second request for it changes nothing.
-/
def add (c : Counters) (r : CounterRequest) : Counters :=
  match r.kind with
  | .long => { c with longs := openTotal r.name 0 c.longs }
  | .double => { c with doubles := openTotal r.name .zero c.doubles }

def ofRequests (requests : List CounterRequest) : Counters :=
  requests.foldl add {}

def long? (c : Counters) (name : String) : Option Int64 :=
  totalOf name c.longs

/--
The total of floating point numbers with this name.
-/
def double? (c : Counters) (name : String) : Option Binary64 :=
  totalOf name c.doubles

/--
Add to a total of whole numbers. It wraps around at 64 bits.
-/
def addLong (c : Counters) (name : String) (delta : Int64) : Counters :=
  { c with longs := change name (· + delta) c.longs }

def addDouble (c : Counters) (name : String) (delta : Binary64) : Counters :=
  { c with doubles := change name (·.add delta) c.doubles }

end Counters

/--
Counters among which all are found that account for scans.
-/
structure ScanTally where
  counters : Counters
  deriving DecidableEq

namespace ScanTally

def scansName : String := "Number of store scanners"

/--
The counter of the filter rows that were scanned for.
-/
def filtersName : String := "Number of filters scanned in store"

def secondsName : String := "Seconds spent scanning store"

def requests : List CounterRequest :=
  [⟨scansName, .long⟩, ⟨filtersName, .long⟩, ⟨secondsName, .double⟩]

/--
Account for scans in these counters, if none is absent.
-/
def ofCounters? (c : Counters) : Option ScanTally :=
  match c.long? scansName, c.long? filtersName, c.double? secondsName with
  | some _, some _, some _ => some ⟨c⟩
  | _, _, _ => none

def scans (m : ScanTally) : Int64 :=
  (m.counters.long? scansName).getD 0

/--
The number of filter rows that were scanned for.
-/
def filters (m : ScanTally) : Int64 :=
  (m.counters.long? filtersName).getD 0

def seconds (m : ScanTally) : Binary64 :=
  (m.counters.double? secondsName).getD .zero

/--
Account for a scan for so many filter rows.
-/
def recordScan (m : ScanTally) (filters : Nat) : ScanTally :=
  let delta := Int64.ofNat (min filters (2 ^ 63 - 1))
  ⟨(m.counters.addLong scansName 1).addLong filtersName delta⟩

def recordSeconds (m : ScanTally) (seconds : Binary64) : ScanTally :=
  ⟨m.counters.addDouble secondsName seconds⟩

/--
The three totals, the seconds with three places.
-/
def text (m : ScanTally) : String :=
  "scanners=" ++ toString m.scans.toInt ++ ", filters=" ++ toString m.filters.toInt
    ++ ", seconds=" ++ m.seconds.threePlaces

end ScanTally

end KeyedTables
