import Hypermedia.Calendar.Date

/-!
# Times, instants and durations

A time of day may carry an offset from universal time, and a date with a time is an
instant. A duration is a number of microseconds; `Duration.ofDays` takes a fractional
number of days to the nearest microsecond.
-/

namespace Hypermedia

/-- The microseconds of a day. -/
def dayMicros : Int := 86400000000

/-- A difference from universal time of less than a day, in microseconds. -/
structure Offset where
  micros : Int
  inRange : -dayMicros < micros ∧ micros < dayMicros
  deriving DecidableEq

/-- A time of day, to the microsecond. -/
structure TimeOfDay where
  hour : Nat
  minute : Nat
  second : Nat
  micro : Nat
  offset : Option Offset
  inDay : hour < 24 ∧ minute < 60 ∧ second < 60 ∧ micro < 1000000
  deriving DecidableEq

/-- A date and a time of day. -/
structure DateTime where
  date : Date
  time : TimeOfDay
  deriving DecidableEq

namespace Offset

/-- The offset of a number of microseconds, if it is shorter than a day. -/
def ofMicros (n : Int) : Except FieldFault Offset :=
  if h : -dayMicros < n ∧ n < dayMicros then .ok ⟨n, h⟩ else .error (.offset n)

/-- Sign, hours and minutes; seconds and microseconds only when they are not zero. -/
def text (o : Offset) : String :=
  let n := o.micros.natAbs
  let seconds := n / 1000000
  let micro := n % 1000000
  (if o.micros < 0 then "-" else "+") ++
    padded 2 (seconds / 3600) ++ ":" ++ padded 2 (seconds / 60 % 60) ++
    (if seconds % 60 = 0 && micro = 0 then "" else ":" ++ padded 2 (seconds % 60)) ++
    (if micro = 0 then "" else "." ++ padded 6 micro)

end Offset

namespace TimeOfDay

/-- The time of its fields, or the first field that is out of range. -/
def ofFields (hour minute second micro : Nat) (offset : Option Offset) :
    Except FieldFault TimeOfDay :=
  if h : hour < 24 ∧ minute < 60 ∧ second < 60 ∧ micro < 1000000 then
    .ok ⟨hour, minute, second, micro, offset, h⟩
  else if 24 ≤ hour then .error .hour
  else if 60 ≤ minute then .error .minute
  else .error .second

/-- Hours, minutes and seconds with colons; microseconds only when they are not zero; the
offset, if there is one. -/
def text (t : TimeOfDay) : String :=
  padded 2 t.hour ++ ":" ++ padded 2 t.minute ++ ":" ++ padded 2 t.second ++
    (if t.micro = 0 then "" else "." ++ padded 6 t.micro) ++
    ((t.offset.map Offset.text).getD "")

/-- The time without its offset. -/
def naive (t : TimeOfDay) : TimeOfDay := { t with offset := none }

/-- The microseconds since midnight. -/
def micros (t : TimeOfDay) : Nat :=
  ((t.hour * 60 + t.minute) * 60 + t.second) * 1000000 + t.micro

end TimeOfDay

namespace DateTime

/-- Date and time around a separator. -/
def text (separator : String) (d : DateTime) : String := d.date.text ++ separator ++ d.time.text

/-- The microseconds since the start of the calendar, in universal time when there is an
offset. -/
def micros (d : DateTime) : Int :=
  d.date.ordinal * dayMicros + d.time.micros - ((d.time.offset.map Offset.micros).getD 0)

/-- Are two instants equal? One with an offset never equals one without. -/
def sameInstant (a b : DateTime) : Bool :=
  a.time.offset.isSome == b.time.offset.isSome && a.micros == b.micros

end DateTime

/-- The greatest number of days of a duration. -/
def maxDays : Int := 999999999

/-- A length of time in microseconds. -/
structure Duration where
  micros : Int
  inRange : -(maxDays * dayMicros) ≤ micros ∧ micros < (maxDays + 1) * dayMicros
  deriving DecidableEq

/-- Why a number of days is no duration. -/
inductive DurationFault where
  /-- Beyond the greatest number of days. -/
  | days (n : Int)
  /-- Beyond the range of the day counter. -/
  | huge
  | infinite
  | nan
  deriving DecidableEq, Repr

namespace Duration

instance : Inhabited Duration := ⟨⟨0, by decide⟩⟩

/-- The duration of a number of microseconds. -/
def ofMicros (n : Int) : Except DurationFault Duration :=
  if h : -(maxDays * dayMicros) ≤ n ∧ n < (maxDays + 1) * dayMicros then .ok ⟨n, h⟩
  else
    let days := n / dayMicros
    .error (if -2147483648 ≤ days ∧ days < 2147483648 then .days days else .huge)

/-- The days of the duration, rounded down. -/
def days (d : Duration) : Int := d.micros / dayMicros

/-- The seconds beyond the days. -/
def seconds (d : Duration) : Nat := (d.micros % dayMicros).toNat / 1000000

/-- The microseconds beyond the seconds. -/
def micro (d : Duration) : Nat := (d.micros % dayMicros).toNat % 1000000

/-- The days, when there are any, and the clock time of the rest. -/
def text (d : Duration) : String :=
  let days := d.days
  let head :=
    if days = 0 then ""
    else toString days ++ (if days.natAbs = 1 then " day, " else " days, ")
  let s := d.seconds
  head ++ toString (s / 3600) ++ ":" ++ padded 2 (s / 60 % 60) ++ ":" ++ padded 2 (s % 60) ++
    (if d.micro = 0 then "" else "." ++ padded 6 d.micro)

/-- Microseconds of a fraction of a day that is itself rounded to a double first: the whole
part, and what is left is rounded to the nearest microsecond, a half to the even one. -/
def fractionMicros (sum : Int) (negative : Bool) (num den : Nat) : Int :=
  match Binary64.ofRatio negative (num * dayMicros.toNat) den with
  | .finite s m e =>
    let x := Binary64.finite s m e
    let whole := sum + (x.truncate?).getD 0
    let (n, d) := x.fraction
    let up : Int :=
      if 2 * n < d then 0 else if d < 2 * n then 1 else whole.natAbs % 2
    whole + (if s then -up else up)
  | _ => sum

/-- The duration of a whole number of days. -/
def ofWholeDays (n : Int) : Except DurationFault Duration := ofMicros (n * dayMicros)

/-- The duration of a fractional number of days. -/
def ofDays : Binary64 → Except DurationFault Duration
  | .nan => .error .nan
  | .infinite _ => .error .infinite
  | .finite s m e =>
    let x := Binary64.finite s m e
    let whole := (x.truncate?).getD 0 * dayMicros
    let (n, d) := x.fraction
    ofMicros (if n = 0 then whole else fractionMicros whole s n d)

end Duration

end Hypermedia
