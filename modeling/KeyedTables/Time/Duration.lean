import KeyedTables.Number.Power
import KeyedTables.Text.Blank

/-!
This module contains durations, their text as a list of spans such as `1m 30s`, and the reader of
such texts.
-/

namespace KeyedTables

/--
A duration of whole nanoseconds. Its seconds fit into 64 bits.
-/
structure Duration where
  nanoseconds : Nat
  inRange : nanoseconds < 2 ^ 64 * 10 ^ 9
  deriving DecidableEq

namespace Duration

/--
The duration of so many nanoseconds, if it is in range.
-/
def ofNanoseconds? (n : Nat) : Option Duration :=
  if h : n < 2 ^ 64 * 10 ^ 9 then some ⟨n, h⟩ else none

/--
The duration of so many milliseconds, or the longest one if there are too many.
-/
def ofMilliseconds (n : Nat) : Duration :=
  if h : n * 10 ^ 6 < 2 ^ 64 * 10 ^ 9 then ⟨n * 10 ^ 6, h⟩
  else ⟨2 ^ 64 * 10 ^ 9 - 1, by decide⟩

def milliseconds (d : Duration) : Nat :=
  d.nanoseconds / 10 ^ 6

/--
The milliseconds after which a clock that ticks once per millisecond has let the duration pass.
-/
def ticks (d : Duration) : Nat :=
  (d.nanoseconds + (10 ^ 6 - 1)) / 10 ^ 6

/--
The units of a span. A month is the twelfth part of a year, and a year has 365.25 days.
-/
inductive TimeUnit where
  | nanosecond
  | microsecond
  | millisecond
  | second
  | minute
  | hour
  | day
  | week
  | month
  | year
  deriving DecidableEq

namespace TimeUnit

def nanoseconds : TimeUnit → Nat
  | .nanosecond => 1
  | .microsecond => 10 ^ 3
  | .millisecond => 10 ^ 6
  | .second => 10 ^ 9
  | .minute => 60 * 10 ^ 9
  | .hour => 3600 * 10 ^ 9
  | .day => 86400 * 10 ^ 9
  | .week => 604800 * 10 ^ 9
  | .month => 2630016 * 10 ^ 9
  | .year => 31557600 * 10 ^ 9

/--
The names under which a unit is read. Case matters.
-/
def names : TimeUnit → List String
  | .nanosecond => ["nanos", "nsec", "ns"]
  | .microsecond => ["usec", "us", "µs"]
  | .millisecond => ["millis", "msec", "ms"]
  | .second => ["seconds", "second", "secs", "sec", "s"]
  | .minute => ["minutes", "minute", "min", "mins", "m"]
  | .hour => ["hours", "hour", "hr", "hrs", "h"]
  | .day => ["days", "day", "d"]
  | .week => ["weeks", "week", "wk", "wks", "w"]
  | .month => ["months", "month", "M"]
  | .year => ["years", "year", "yr", "yrs", "y"]

def all : List TimeUnit :=
  [.nanosecond, .microsecond, .millisecond, .second, .minute, .hour, .day, .week, .month, .year]

def ofName? (name : String) : Option TimeUnit :=
  all.find? fun unit => unit.names.contains name

end TimeUnit

/--
A count of a unit, and the name of the unit.
-/
structure Span where
  count : Nat
  unit : TimeUnit
  name : String

namespace Span

def nanoseconds (s : Span) : Nat :=
  s.count * s.unit.nanoseconds

def text (s : Span) : String :=
  toString s.count ++ s.name

/--
The spans of a text with a space between them.
-/
def textOfAll (spans : List Span) : String :=
  " ".intercalate (spans.map text)

end Span

/-!
# Writing
-/

/--
The units that a duration is split into, from the longest.
-/
def splitUnits : List TimeUnit :=
  [.year, .month, .day, .hour, .minute, .second, .millisecond, .microsecond, .nanosecond]

/--
How often each unit fits into what the longer ones leave of so many nanoseconds. Units that do not
fit are left out.
-/
def split : List TimeUnit → Nat → List (Nat × TimeUnit)
  | [], _ => []
  | unit :: shorter, n =>
    let count := n / unit.nanoseconds
    let rest := split shorter (n % unit.nanoseconds)
    if count = 0 then rest else (count, unit) :: rest

/--
The counts of units that are written. A duration of nothing is no seconds.
-/
def parts (d : Duration) : List (Nat × TimeUnit) :=
  if d.nanoseconds = 0 then [(0, .second)] else split splitUnits d.nanoseconds

/--
The name of a unit after a count.
-/
def writtenName (count : Nat) : TimeUnit → String
  | .nanosecond => "ns"
  | .microsecond => "us"
  | .millisecond => "ms"
  | .second => "s"
  | .minute => "m"
  | .hour => "h"
  | .day => if count = 1 then "day" else "days"
  | .week => if count = 1 then "week" else "weeks"
  | .month => if count = 1 then "month" else "months"
  | .year => if count = 1 then "year" else "years"

def text (d : Duration) : String :=
  Span.textOfAll (d.parts.map fun (count, unit) => ⟨count, unit, writtenName count unit⟩)

/-!
# Reading
-/

def word? (n : Nat) : Option Nat :=
  if n < 2 ^ 64 then some n else none

/--
The places of a span as `numerator / denominator`, the denominator a power of ten.
-/
structure Places where
  numerator : Nat
  denominator : Nat
  deriving DecidableEq

def digit? (c : Char) : Option Nat :=
  if '0' ≤ c ∧ c ≤ '9' then some (c.toNat - '0'.toNat) else none

/--
A unit starts with a letter and goes on with letters.
-/
def isUnitLetter (c : Char) : Bool :=
  ('a' ≤ c && c ≤ 'z') || ('A' ≤ c && c ≤ 'Z') || c = 'µ'

/--
Add seconds to a total of nanoseconds. The seconds of the total stay within a word.
-/
def addSeconds (total seconds : Nat) : Option Nat := do
  let seconds ← word? seconds
  let _ ← word? (total / 10 ^ 9 + seconds)
  some (total + seconds * 10 ^ 9)

/--
Add nanoseconds to a total. The nanoseconds together with those of the total that make no whole
second stay within a word, and so do the seconds of the new total.
-/
def addNanoseconds (total nanos : Nat) : Option Nat := do
  let nanos ← word? nanos
  let _ ← word? (total % 10 ^ 9 + nanos)
  let _ ← word? ((total + nanos) / 10 ^ 9)
  some (total + nanos)

/--
The quotient, if it is exact and its numerator fits into a word.
-/
def exactly? (numerator denominator : Nat) : Option Nat := do
  let numerator ← word? numerator
  if numerator % denominator = 0 then some (numerator / denominator) else none

/--
Add the whole part of a span. Units below a second are counted in nanoseconds, all others in
seconds.
-/
def addWhole (total count : Nat) (unit : TimeUnit) : Option Nat :=
  if unit.nanoseconds < 10 ^ 9 then addNanoseconds total (count * unit.nanoseconds)
  else addSeconds total (count * (unit.nanoseconds / 10 ^ 9))

/--
Add the places of a span. They must be whole nanoseconds up to the minute and whole seconds from the
hour on, and a nanosecond has none.
-/
def addPlaces (total : Nat) (places : Places) (unit : TimeUnit) : Option Nat :=
  if unit = .nanosecond then
    none
  else if unit.nanoseconds < 3600 * 10 ^ 9 then do
    let nanos ← exactly? (places.numerator * unit.nanoseconds) places.denominator
    addNanoseconds total nanos
  else do
    let seconds ← exactly? (places.numerator * (unit.nanoseconds / 10 ^ 9)) places.denominator
    addSeconds total seconds

def addSpan (total count : Nat) (places : Option Places) (name : List Char) : Option Nat := do
  let unit ← TimeUnit.ofName? (String.ofList name)
  let total ← addWhole total count unit
  match places with
  | none => some total
  | some places => addPlaces total places unit

/--
Where the reader stands: between spans, in the digits before the point, in those after it, or in
the name of the unit.
-/
inductive Reading where
  | between
  | whole (count : Nat)
  | places (count : Nat) (places : Places)
  | unit (count : Nat) (places : Option Places) (name : List Char)
  deriving DecidableEq

/--
The total of the spans that are complete, whether there are any, and where the reader stands.
-/
structure Reader where
  total : Nat := 0
  started : Bool := false
  reading : Reading := .between
  deriving DecidableEq

def pushDigit (n d : Nat) : Option Nat := do
  let n ← word? (n * 10)
  word? (n + d)

/--
Read one character. Blanks inside a number are passed over, and a digit after a unit starts the next
span.
-/
def Reader.next (r : Reader) (c : Char) : Option Reader :=
  match r.reading with
  | .between =>
    match digit? c with
    | some d => some { r with started := true, reading := .whole d }
    | none => if Text.isBlank c then some r else none
  | .whole n =>
    match digit? c with
    | some d => do
      let n ← pushDigit n d
      some { r with reading := .whole n }
    | none =>
      if Text.isBlank c then some r
      else if isUnitLetter c then some { r with reading := .unit n none [c] }
      else if c = '.' then some { r with reading := .places n ⟨0, 1⟩ }
      else none
  | .places n p =>
    match digit? c with
    | some d => do
      let numerator ← pushDigit p.numerator d
      let denominator ← word? (p.denominator * 10)
      some { r with reading := .places n ⟨numerator, denominator⟩ }
    | none =>
      if Text.isBlank c then some r
      else if isUnitLetter c ∧ p.denominator ≠ 1 then
        some { r with reading := .unit n (some p) [c] }
      else none
  | .unit n p name =>
    match digit? c with
    | some d => do
      let total ← addSpan r.total n p name
      some { r with total := total, reading := .whole d }
    | none =>
      if Text.isBlank c then do
        let total ← addSpan r.total n p name
        some { r with total := total, reading := .between }
      else if isUnitLetter c then some { r with reading := .unit n p (name ++ [c]) }
      else none

/--
The total at the end of the text. There is at least one span, and each has a unit.
-/
def Reader.finish (r : Reader) : Option Nat :=
  match r.reading with
  | .between => if r.started then some r.total else none
  | .unit n p name => addSpan r.total n p name
  | .whole _ => none
  | .places _ _ => none

/--
Read the spans of a text and add them up. A zero needs no unit if it stands alone.
-/
def parse? (s : String) : Option Duration :=
  if s = "0" then
    ofNanoseconds? 0
  else do
    let reader ← s.toList.foldlM Reader.next {}
    let total ← reader.finish
    ofNanoseconds? total

end Duration

end KeyedTables
