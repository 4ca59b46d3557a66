import KeyedTables.Number.Digits

/-!
This module contains points in time, counted in microseconds from the start of 1970, and their text.
The calendar is a parameter of all that writes a point in time. The one in use is the proleptic
Gregorian calendar.
-/

namespace KeyedTables

/--
The points in time that a calendar covers, with their date and time of day. Values, rows and the
errors about them are written with the calendar, so it is inferred rather than passed to each.
-/
class Calendar where
  text? : Int64 → Option String

/--
A point in time that the calendar does not cover is written as its count of microseconds.
-/
def Timestamp.text [Calendar] (micros : Int64) : String :=
  (Calendar.text? micros).getD ("ts:" ++ toString micros.toInt)

structure CivilDate where
  year : Int
  month : Nat
  day : Nat
  deriving DecidableEq

/--
The day that lies `days` after the first of January 1970. Years are counted from March on, so that
the leap day is the last one of its year, in eras of 400 years.
-/
def CivilDate.ofDays (days : Int) : CivilDate :=
  let shifted := days + 719468
  let era := shifted / 146097
  let dayOfEra := (shifted % 146097).toNat
  let yearOfEra :=
    (dayOfEra - dayOfEra / 1460 + dayOfEra / 36524 - dayOfEra / 146096) / 365
  let dayOfYear := dayOfEra - (365 * yearOfEra + yearOfEra / 4 - yearOfEra / 100)
  let marchMonth := (5 * dayOfYear + 2) / 153
  let day := dayOfYear - (153 * marchMonth + 2) / 5 + 1
  let month := if marchMonth < 10 then marchMonth + 3 else marchMonth - 9
  let year := yearOfEra + era * 400
  ⟨if month ≤ 2 then year + 1 else year, month, day⟩

namespace CivilDate

/--
A year of four digits stands alone, any other has a sign and at least four digits.
-/
def yearText (year : Int) : String :=
  if 0 ≤ year ∧ year ≤ 9999 then Number.padded 4 year.toNat
  else (if year < 0 then "-" else "+") ++ Number.padded 4 year.natAbs

def text (date : CivilDate) : String :=
  yearText date.year ++ "-" ++ Number.padded 2 date.month ++ "-" ++ Number.padded 2 date.day

end CivilDate

namespace Timestamp

def microsPerDay : Int := 86400000000

def minSeconds : Int := -8334601228800

def maxSeconds : Int := 8210266876799

def InCalendar (micros : Int) : Prop :=
  minSeconds ≤ micros / 1000000 ∧ micros / 1000000 ≤ maxSeconds

instance (micros : Int) : Decidable (InCalendar micros) :=
  inferInstanceAs (Decidable (minSeconds ≤ micros / 1000000 ∧ micros / 1000000 ≤ maxSeconds))

/--
The fraction of a second: as few of no, three or six places as are exact.
-/
def fractionText (micros : Nat) : String :=
  if micros = 0 then ""
  else if micros % 1000 = 0 then "." ++ Number.padded 3 (micros / 1000)
  else "." ++ Number.padded 6 micros

/--
Date and time of day with the offset of universal time.
-/
def civilText (micros : Int) : String :=
  let date := CivilDate.ofDays (micros / microsPerDay)
  let ofDay := (micros % microsPerDay).toNat
  let second := ofDay / 1000000
  date.text ++ "T" ++ Number.padded 2 (second / 3600) ++ ":"
    ++ Number.padded 2 (second / 60 % 60) ++ ":" ++ Number.padded 2 (second % 60)
    ++ fractionText (ofDay % 1000000) ++ "+00:00"

/--
The microseconds of an instant given by whole seconds and nanoseconds, parts of a microsecond cut
off. More than a second of nanoseconds stands for a leap second, which only the last second of a
minute can have.
-/
def ofInstant? (seconds : Int) (nanos : Nat) : Option Int :=
  if seconds < minSeconds ∨ maxSeconds < seconds then none
  else if 2000000000 ≤ nanos then none
  else if 1000000000 ≤ nanos ∧ seconds % 60 ≠ 59 then none
  else some (seconds * 1000000 + (nanos / 1000 : Nat))

end Timestamp

instance : Calendar where
  text? micros :=
    if Timestamp.InCalendar micros.toInt then some (Timestamp.civilText micros.toInt) else none

end KeyedTables
