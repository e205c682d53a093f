import Hypermedia.Calendar.Time

/-!
# Reading dates and times

Readers of the forms of ISO 8601: dates with or without hyphens, by month or by week, and
times with or without colons, with a fraction after any field and an offset or `Z`.

A text is read in code units: an ASCII character counts once, any other as often as its
UTF-8 encoding has bytes (`units`), which fixes the lengths by which the forms of a date
are told apart. A reader that ran past the end sees `none`.
-/

namespace Hypermedia.Iso

/-- Why a text is no date or time. -/
inductive Fault where
  /-- The text has none of the forms. -/
  | malformed
  /-- A field is out of range. -/
  | field (fault : FieldFault)
  deriving DecidableEq, Repr

/-- The code units of a text. -/
def units (s : String) : List Char :=
  s.toList.flatMap fun c => if c.toNat < 128 then [c] else List.replicate c.utf8Size c

/-- Read a number of `n` digits. -/
def digits? : Nat → Nat → List Char → Option (Nat × List Char)
  | 0, v, r => some (v, r)
  | n + 1, v, c :: r =>
    if c.isDigit then digits? n (10 * v + (c.toNat - 48)) r else none
  | _ + 1, _, [] => none

/-- Read the fields of a date from a text of which `len` units belong to the date. -/
def dateFields? (s : List Char) (len : Nat) : Option (Nat × Nat × Nat) := do
  let (year, r) ← digits? 4 0 s
  let hyphens := r.head? == some '-'
  let r := if hyphens then r.tail else r
  if r.head? == some 'W' then
    let (week, r) ← digits? 2 0 r.tail
    if s.length - r.length < len then
      let r ← if hyphens then (if r.head? == some '-' then some r.tail else none) else some r
      let (day, _) ← digits? 1 0 r
      Date.ofWeek? year week day
    else Date.ofWeek? year week 1
  else
    let (month, r) ← digits? 2 0 r
    let r ← if hyphens then (if r.head? == some '-' then some r.tail else none) else some r
    let (day, _) ← digits? 2 0 r
    some (year, month, day)

/-- The outcome of a range check as an outcome of reading. -/
def checked {α : Type} : Except FieldFault α → Except Fault α
  | .ok a => .ok a
  | .error f => .error (.field f)

/-- Read a date. -/
def date (text : String) : Except Fault Date :=
  let s := units text
  if s.length = 7 || s.length = 8 || s.length = 10 then
    match dateFields? s s.length with
    | some (y, m, d) => checked (Date.ofFields y m d)
    | none => .error .malformed
  else .error .malformed

/-- Hour, minute, second, microsecond, and whether something follows. -/
abbrev Clock := Nat × Nat × Nat × Nat × Bool

/-- The microseconds of a fraction: at most six digits count, further digits are skipped. -/
def fraction? (len : Nat) (r : List Char) : Option (Nat × Bool) := do
  let n := min len 6
  let (v, r) ← digits? n 0 r
  let scale := if n = 0 then 1 else Nat.pow 10 (6 - n)
  some (v * scale, !(r.dropWhile Char.isDigit).isEmpty)

/-- Read the fields of a clock time from a text of which `len` units belong to it; `field`
is the number of fields read so far, `colons` whether the first was followed by one. -/
def clockFrom? : Nat → Nat → Bool → List Nat → Nat → List Char → Option Clock
  | 0, _, _, vs, len, r => finish vs len r
  | fuel + 1, field, colons, vs, len, r => do
    let (v, r) ← digits? 2 0 r
    let vs := vs ++ [v]
    let c := r.head?
    let colons := if field = 0 then c == some ':' else colons
    if len ≤ 3 then some (done vs 0 c.isSome)
    else
      if colons && c == some ':' then clockFrom? fuel (field + 1) colons vs (len - 3) r.tail
      else if c == some '.' || c == some ',' then finish vs (len - 3) r.tail
      else if colons then none
      else clockFrom? fuel (field + 1) colons vs (len - 2) r
where
  /-- Fields that were not written are zero. -/
  done (vs : List Nat) (micro : Nat) (more : Bool) : Clock :=
    (vs[0]?.getD 0, vs[1]?.getD 0, vs[2]?.getD 0, micro, more)
  /-- Read the fraction after the fields. -/
  finish (vs : List Nat) (len : Nat) (r : List Char) : Option Clock := do
    let (micro, more) ← fraction? len r
    some (done vs micro more)

/-- Read a clock time from a text of which `len` units belong to it. -/
def clock? (len : Nat) (r : List Char) : Option Clock := clockFrom? 3 0 true [] len r

/-- A sign or a `Z` starts the offset. -/
def startsOffset (c : Char) : Bool := c == '+' || c == '-' || c == 'Z'

/-- Read the fields of a time and its offset in microseconds. -/
def timeFields? (s : List Char) : Option (Nat × Nat × Nat × Nat × Option Int) := do
  let clock := s.takeWhile fun c => !startsOffset c
  let (h, m, sec, micro, more) ← clock? clock.length s
  match s.drop clock.length with
  | [] => if more then none else some (h, m, sec, micro, none)
  | 'Z' :: r => if r.isEmpty then some (h, m, sec, micro, some 0) else none
  | sign :: r => do
    let (oh, om, os, omicro, more) ← clock? r.length r
    if more then none
    let n : Int := ((oh * 3600 + om * 60 + os) * 1000000 + omicro : Nat)
    some (h, m, sec, micro, some (if sign == '-' then -n else n))

/-- The offset of its microseconds, if there is one. Less than a second is no offset from
universal time. -/
def offset? : Option Int → Except Fault (Option Offset)
  | none => .ok none
  | some n => (checked (Offset.ofMicros (if n.natAbs < 1000000 then 0 else n))).map some

/-- Read a time of day; a `T` may stand before it. -/
def time (text : String) : Except Fault TimeOfDay :=
  let s := units text
  let s := if s.head? == some 'T' then s.tail else s
  match timeFields? s with
  | none => .error .malformed
  | some (h, m, sec, micro, o) => do
    let o ← offset? o
    checked (TimeOfDay.ofFields h m sec micro o)

/-- The position of the separator between a date and a time. A week without a day is told
from one with a day by what follows. -/
def separatorAt (s : List Char) : Nat :=
  let at? (i : Nat) : Option Char := s[i]?
  let digitAt (i : Nat) : Bool := ((at? i).map Char.isDigit).getD false
  if s.length = 7 then 7
  else if at? 4 == some '-' then
    if at? 5 == some 'W' then
      if 8 < s.length && at? 8 == some '-' then
        if s.length = 9 then 9 else if digitAt 10 then 8 else 10
      else 8
    else 10
  else if at? 4 == some 'W' then
    let n := 7 + ((s.drop 7).takeWhile Char.isDigit).length
    if n < 9 then n else if n % 2 = 0 then 7 else 8
  else 8

/-- Read a date with a time; the time may be missing. Any character separates them. -/
def dateTime (text : String) : Except Fault DateTime :=
  let s := units text
  let i := separatorAt s
  match dateFields? s i with
  | none => .error .malformed
  | some (y, mo, d) =>
    let rest := s.drop i
    let fields :=
      match rest with
      | [] => some (0, 0, 0, 0, none)
      | c :: r => timeFields? (if c.toNat < 128 then r else rest.drop c.utf8Size)
    match fields with
    | none => .error .malformed
    | some (h, m, sec, micro, o) => do
      let o ← offset? o
      let date ← checked (Date.ofFields y mo d)
      let time ← checked (TimeOfDay.ofFields h m sec micro o)
      .ok ⟨date, time⟩

end Hypermedia.Iso
