import PeCoff.Text.Number

/-!
# Time stamps

A time stamp counts seconds from the start of 1970 in UTC. It is written with the names of the day
and month first and the year last, the day of the month filled up with a blank.
-/

namespace PeCoff.Text

/-- A day of the proleptic Gregorian calendar. -/
structure Date where
  year : Nat
  /-- One for January. -/
  month : Nat
  day : Nat
  deriving DecidableEq, Repr

/-- The date that lies `days` days after 1 January 1970. Years are counted from March in eras of
four hundred, so that a leap day ends its year. -/
def Date.ofDays (days : Nat) : Date :=
  let shifted := days + 719468
  let era := shifted / 146097
  let dayOfEra := shifted % 146097
  let yearOfEra := (dayOfEra - dayOfEra / 1460 + dayOfEra / 36524 - dayOfEra / 146096) / 365
  let dayOfYear := dayOfEra - (365 * yearOfEra + yearOfEra / 4 - yearOfEra / 100)
  let monthFromMarch := (5 * dayOfYear + 2) / 153
  let day := dayOfYear - (153 * monthFromMarch + 2) / 5 + 1
  let month := if monthFromMarch < 10 then monthFromMarch + 3 else monthFromMarch - 9
  let year := yearOfEra + era * 400 + if month ≤ 2 then 1 else 0
  ⟨year, month, day⟩

/-- The names of the days, from the day of the week of 1 January 1970. -/
def weekdays : List String :=
  ["Thu", "Fri", "Sat", "Sun", "Mon", "Tue", "Wed"]

/-- The names of the months. -/
def months : List String :=
  ["Jan", "Feb", "Mar", "Apr", "May", "Jun", "Jul", "Aug", "Sep", "Oct", "Nov", "Dec"]

/-- A time stamp as a line of text. -/
def timestamp (stamp : UInt32) : String :=
  let seconds := stamp.toNat
  let days := seconds / 86400
  let date := Date.ofDays days
  let weekday := weekdays.getD (days % 7) ""
  let month := months.getD (date.month - 1) ""
  let day := alignRight 2 (toString date.day)
  let hour := decimalOf 2 (seconds / 3600 % 24)
  let minute := decimalOf 2 (seconds / 60 % 60)
  let second := decimalOf 2 (seconds % 60)
  s!"{weekday} {month} {day} {hour}:{minute}:{second} {date.year}"

end PeCoff.Text
