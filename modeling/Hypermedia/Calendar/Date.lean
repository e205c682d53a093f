import Hypermedia.Number.Shortest

/-!
# Dates

Days of the proleptic Gregorian calendar, years 1 to 9999. `Date.ordinal` counts days from
the first day of year 1, `Date.ofOrdinal?` goes back, and `Date.ofWeek?` reads the
calendar of weeks in which a week belongs to the year of its Thursday.
-/

namespace Hypermedia

/-- What is wrong with the fields of a date or a time. -/
inductive FieldFault where
  | year (n : Nat)
  | month
  | day
  | hour
  | minute
  | second
  /-- An offset of a day or more; in microseconds. -/
  | offset (microseconds : Int)
  deriving DecidableEq, Repr

/-- Is this a leap year? -/
def isLeap (year : Nat) : Bool := year % 4 == 0 && (year % 100 != 0 || year % 400 == 0)

/-- The number of days of a month. -/
def daysInMonth (year month : Nat) : Nat :=
  match month with
  | 2 => if isLeap year then 29 else 28
  | 4 | 6 | 9 | 11 => 30
  | _ => 31

/-- Does the calendar have this day? -/
def isDay (year month day : Nat) : Bool :=
  1 ≤ year && year ≤ 9999 && 1 ≤ month && month ≤ 12 && 1 ≤ day && day ≤ daysInMonth year month

/-- `n` with leading zeros up to a width. -/
def padded (width n : Nat) : String :=
  let digits := toString n
  zeros (width - digits.length) ++ digits

/-- A day of the calendar. -/
structure Date where
  year : Nat
  month : Nat
  day : Nat
  inCalendar : isDay year month day = true
  deriving DecidableEq

namespace Date

instance : Inhabited Date := ⟨⟨1, 1, 1, by decide⟩⟩

/-- The date of a year, a month and a day, or the first field that is out of range. -/
def ofFields (year month day : Nat) : Except FieldFault Date :=
  if year < 1 || 9999 < year then .error (.year year)
  else if month < 1 || 12 < month then .error .month
  else if h : isDay year month day = true then .ok ⟨year, month, day, h⟩
  else .error .day

/-- Year, month and day with hyphens. -/
def text (d : Date) : String := s!"{padded 4 d.year}-{padded 2 d.month}-{padded 2 d.day}"

/-- The days before a year. -/
def daysBeforeYear (year : Nat) : Nat :=
  let y := year - 1
  y * 365 + y / 4 - y / 100 + y / 400

/-- The days of a year before a month. -/
def daysBeforeMonth (year month : Nat) : Nat :=
  (List.range (month - 1)).foldl (fun days m => days + daysInMonth year (m + 1)) 0

/-- The number of a day, one for the first day of year 1. -/
def ordinalOf (year month day : Nat) : Nat :=
  daysBeforeYear year + daysBeforeMonth year month + day

/-- The number of the day. -/
def ordinal (d : Date) : Nat := ordinalOf d.year d.month d.day

/-- The day of the week of a day's number, zero for Monday. -/
def weekday (ordinal : Nat) : Nat := (ordinal + 6) % 7

/-- Find the month that holds a day of the year. -/
def monthOf (year : Nat) : Nat → Nat → Nat → Nat × Nat
  | 0, month, day => (month, day)
  | fuel + 1, month, day =>
    if day ≤ daysInMonth year month then (month, day)
    else monthOf year fuel (month + 1) (day - daysInMonth year month)

/-- Year, month and day of a day's number. -/
def fieldsOfOrdinal (n : Nat) : Nat × Nat × Nat :=
  let guess := (n - 1) / 366 + 1
  let year := yearFrom 40 guess
  let (month, day) := monthOf year 12 1 (n - daysBeforeYear year)
  (year, month, day)
where
  /-- The last year from the guess on that begins before the day. -/
  yearFrom : Nat → Nat → Nat
    | 0, y => y
    | fuel + 1, y => if daysBeforeYear (y + 1) < n then yearFrom fuel (y + 1) else y

/-- The number of the Monday of a year's first week. -/
def firstMonday (year : Nat) : Nat :=
  let first := ordinalOf year 1 1
  let w := weekday first
  if w ≤ 3 then first - w else first + 7 - w

/-- Does the year have 53 weeks? -/
def hasLongYear (year : Nat) : Bool :=
  let w := weekday (ordinalOf year 1 1)
  w == 3 || (w == 2 && isLeap year)

/-- The fields of a day of a week: `none` when there is no such week or day. Year 0 has no
calendar; all its days have no month. -/
def ofWeek? (year week day : Nat) : Option (Nat × Nat × Nat) :=
  if week = 0 || 53 < week || (week = 53 && (year = 0 || !hasLongYear year)) then none
  else if day = 0 || 7 < day then none
  else if year = 0 then some (1, 0, 0)
  else some (fieldsOfOrdinal (firstMonday year + (week - 1) * 7 + day - 1))

end Date

end Hypermedia
