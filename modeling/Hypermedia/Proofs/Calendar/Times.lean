import Hypermedia.Proofs.Calendar.Dates

/-!
# Times are read as they are written

The text of a clock time is read as its fields (`Iso.clock?_clockChars`), with and without the
fraction of a second that is left out when it is zero, and so is that of an offset. So the text of
a time is read as the time (`Iso.time_text`), and that of an instant as the instant
(`Iso.dateTime_text`), except that an offset of less than a second is lost (`Offset.legible`).
-/

namespace Hypermedia

/-- The offset that is read where this one is written: less than a second is no offset from
universal time. -/
def Offset.legible (o : Offset) : Offset :=
  if o.micros.natAbs < 1000000 then ⟨0, by decide⟩ else o

/-- The time that is read where this one is written. -/
def TimeOfDay.legible (t : TimeOfDay) : TimeOfDay :=
  { t with offset := t.offset.map Offset.legible }

/-- An offset is kept if there is none or it has a second at least. -/
theorem TimeOfDay.legible_eq_self {t : TimeOfDay} :
    t.legible = t ↔ ∀ o ∈ t.offset, o.micros = 0 ∨ 1000000 ≤ o.micros.natAbs := by
  obtain ⟨h, m, s, u, offset, inDay⟩ := t
  cases offset with
  | none => simp [legible]
  | some o =>
    obtain ⟨micros, inRange⟩ := o
    by_cases hsmall : micros.natAbs < 1000000
    · simp [legible, Offset.legible, hsmall]
      omega
    · simp [legible, Offset.legible, hsmall]
      omega

namespace Iso

/-! ## Clock times -/

section

variable {h m s u : Nat} (hh : h < 100) (hm : m < 100) (hs : s < 100) (hu : u < 1000000)

/-- The characters of hours and minutes. -/
def shortChars (h m : Nat) : List Char := (padded 2 h).toList ++ ':' :: (padded 2 m).toList

/-- The characters of a fraction of a second, which is left out when it is zero. -/
def fractionChars (u : Nat) : List Char := if u = 0 then [] else '.' :: (padded 6 u).toList

/-- The characters of a clock time. -/
def clockChars (h m s u : Nat) : List Char :=
  shortChars h m ++ ':' :: ((padded 2 s).toList ++ fractionChars u)

theorem length_toDigits_le_two {n : Nat} (h : n < 100) : (Nat.toDigits 10 n).length ≤ 2 :=
  (Nat.length_toDigits_le_iff (by decide) (by decide)).2 h

include hh hm

theorem length_shortChars : (shortChars h m).length = 5 := by
  rw [shortChars, List.length_append, List.length_cons, length_padded (length_toDigits_le_two hh),
    length_padded (length_toDigits_le_two hm)]

/-- Hours and minutes are read as they are written. -/
theorem clock?_shortChars : clock? 5 (shortChars h m) = some (h, m, 0, 0, false) := by
  have hminutes := digits?_padded (length_toDigits_le_two hm) []
  rw [List.append_nil] at hminutes
  simp [clock?, clockFrom?, clockFrom?.done, shortChars, digits?_padded (length_toDigits_le_two hh),
    hminutes]

include hs

theorem length_clockChars :
    (clockChars h m s u).length = 8 + (fractionChars u).length := by
  rw [clockChars, List.length_append, List.length_cons, List.length_append,
    length_shortChars hh hm, length_padded (length_toDigits_le_two hs)]
  omega

include hu

/-- A clock time is read as it is written, whatever follows it that does not begin with a
digit. -/
theorem clock?_clockChars {r : List Char} (hr : ∀ c ∈ r.head?, c.isDigit = false) :
    clock? (clockChars h m s u).length (clockChars h m s u ++ r) =
      some (h, m, s, u, !r.isEmpty) := by
  have hhours := digits?_padded (length_toDigits_le_two hh)
  have hminutes := digits?_padded (length_toDigits_le_two hm)
  have hseconds := digits?_padded (length_toDigits_le_two hs)
  rw [length_clockChars hh hm hs]
  by_cases hzero : u = 0
  · have hmore : r.head?.isSome = !r.isEmpty := by cases r <;> rfl
    simp [clock?, clockFrom?, clockFrom?.done, clockChars, shortChars, fractionChars, hzero, hhours,
      hminutes, hseconds, hmore]
  · have hdigits : (Nat.toDigits 10 u).length ≤ 6 :=
      (Nat.length_toDigits_le_iff (by decide) (by decide)).2 hu
    have hmore : r.dropWhile Char.isDigit = r := by
      cases r with
      | nil => rfl
      | cons c r => rw [List.dropWhile_cons_of_neg (by simp [hr c rfl])]
    have hlength : (fractionChars u).length = 7 := by
      rw [fractionChars, if_neg hzero, List.length_cons, length_padded hdigits]
    rw [hlength]
    simp [clock?, clockFrom?, clockFrom?.done, clockFrom?.finish, fraction?, clockChars, shortChars,
      fractionChars, hzero, hhours, hminutes, hseconds, digits?_padded hdigits, hmore]

end

/-! ## Times with offsets -/

/-- The characters of an offset. -/
def offsetChars (o : Offset) : List Char :=
  let n := o.micros.natAbs
  let seconds := n / 1000000
  (if o.micros < 0 then '-' else '+') ::
    (if seconds % 60 = 0 ∧ n % 1000000 = 0 then shortChars (seconds / 3600) (seconds / 60 % 60)
    else clockChars (seconds / 3600) (seconds / 60 % 60) (seconds % 60) (n % 1000000))

theorem toList_offsetText (o : Offset) : o.text.toList = offsetChars o := by
  by_cases hmicro : o.micros.natAbs % 1000000 = 0
  · by_cases hsecond : o.micros.natAbs / 1000000 % 60 = 0
    · by_cases hsign : o.micros < 0 <;>
        simp [Offset.text, offsetChars, shortChars, hmicro, hsecond, hsign]
    · by_cases hsign : o.micros < 0 <;>
        simp [Offset.text, offsetChars, clockChars, shortChars, fractionChars, hmicro, hsecond,
          hsign]
  · by_cases hsign : o.micros < 0 <;>
      simp [Offset.text, offsetChars, clockChars, shortChars, fractionChars, hmicro, hsign]

theorem toList_timeText (t : TimeOfDay) : t.text.toList =
    clockChars t.hour t.minute t.second t.micro ++ (t.offset.map offsetChars).getD [] := by
  cases hoffset : t.offset with
  | none =>
    by_cases hmicro : t.micro = 0 <;>
      simp [TimeOfDay.text, clockChars, shortChars, fractionChars, hoffset, hmicro]
  | some o =>
    by_cases hmicro : t.micro = 0 <;>
      simp [TimeOfDay.text, clockChars, shortChars, fractionChars, hoffset, hmicro,
        toList_offsetText]

/-- What a clock time is written with: digits, and the characters between its fields. -/
theorem clockChar_cases {h m s u : Nat} {c : Char} (hc : c ∈ clockChars h m s u) :
    c.isDigit = true ∨ c = ':' ∨ c = '.' := by
  simp only [clockChars, shortChars, fractionChars, List.mem_append, List.mem_cons] at hc
  rcases hc with (hc | rfl | hc) | rfl | hc | hc
  · exact .inl (isDigit_of_mem_padded hc)
  · exact .inr (.inl rfl)
  · exact .inl (isDigit_of_mem_padded hc)
  · exact .inr (.inl rfl)
  · exact .inl (isDigit_of_mem_padded hc)
  · split at hc
    · cases hc
    · rcases List.mem_cons.1 hc with rfl | hc
      · exact .inr (.inr rfl)
      · exact .inl (isDigit_of_mem_padded hc)

/-- No character of a clock time begins an offset. -/
theorem not_startsOffset {h m s u : Nat} {c : Char} (hc : c ∈ clockChars h m s u) :
    startsOffset c = false := by
  rcases clockChar_cases hc with hdigit | rfl | rfl
  · simp only [startsOffset, Bool.or_eq_false_iff, beq_eq_false_iff_ne]
    refine ⟨⟨?_, ?_⟩, ?_⟩ <;>
      · rintro rfl
        exact absurd hdigit (by decide)
  · rfl
  · rfl

/-- An offset is read as it is written. -/
theorem clock?_offset (o : Offset) : ∃ sign r h m s u, offsetChars o = sign :: r ∧
    sign ≠ 'Z' ∧ startsOffset sign = true ∧ sign.isDigit = false ∧
    clock? r.length r = some (h, m, s, u, false) ∧
    o.micros = (if sign == '-' then -(((h * 3600 + m * 60 + s) * 1000000 + u : Nat) : Int)
      else ((h * 3600 + m * 60 + s) * 1000000 + u : Nat)) := by
  have hrange : o.micros.natAbs < 86400000000 := by
    have := o.inRange
    simp only [dayMicros] at this
    omega
  generalize hn : o.micros.natAbs = n at hrange
  have hsign : ∀ k : Nat, k = n → o.micros =
      (if (if o.micros < 0 then '-' else '+') == '-' then -(k : Int) else (k : Int)) := by
    rintro k rfl
    split <;> simp <;> omega
  refine ⟨if o.micros < 0 then '-' else '+', _, n / 1000000 / 3600, n / 1000000 / 60 % 60,
    n / 1000000 % 60, n % 1000000, by rw [offsetChars, hn], ?_, ?_, ?_, ?_, hsign _ (by omega)⟩
  · split <;> decide
  · split <;> rfl
  · split <;> rfl
  · split
    · next hzero =>
      rw [length_shortChars (by omega) (by omega), clock?_shortChars (by omega) (by omega),
        hzero.1, hzero.2]
    · have hread := clock?_clockChars (h := n / 1000000 / 3600) (m := n / 1000000 / 60 % 60)
        (s := n / 1000000 % 60) (u := n % 1000000) (by omega) (by omega) (by omega) (by omega)
        (r := []) (by simp)
      rwa [List.append_nil] at hread

/-- The fields of a time are read as they are written. -/
theorem timeFields?_text (t : TimeOfDay) : timeFields? t.text.toList =
    some (t.hour, t.minute, t.second, t.micro, t.offset.map Offset.micros) := by
  obtain ⟨hh, hm, hs, hu⟩ := t.inDay
  rw [toList_timeText]
  have hclock : ∀ r : List Char, (∀ c ∈ r.head?, startsOffset c = true) →
      (clockChars t.hour t.minute t.second t.micro ++ r).takeWhile (fun c => !startsOffset c) =
        clockChars t.hour t.minute t.second t.micro := by
    intro r hr
    rw [List.takeWhile_append_of_pos fun c hc => by simp [not_startsOffset hc]]
    cases r with
    | nil => simp
    | cons c r => simp [hr c rfl]
  cases hoffset : t.offset with
  | none =>
    have hread := clock?_clockChars (h := t.hour) (m := t.minute) (s := t.second) (u := t.micro)
      (by omega) (by omega) (by omega) hu (r := []) (by simp)
    simp only [Option.map_none, Option.getD_none]
    rw [timeFields?, hclock [] (by simp), hread]
    simp
  | some o =>
    obtain ⟨sign, r, h, m, s, u, hchars, hzulu, hstart, hdigit, hread, hmicros⟩ := clock?_offset o
    have hhead := clock?_clockChars (h := t.hour) (m := t.minute) (s := t.second) (u := t.micro)
      (by omega) (by omega) (by omega) hu (r := sign :: r) (by simpa using hdigit)
    simp only [Option.map_some, Option.getD_some, hchars]
    rw [timeFields?, hclock (sign :: r) (by simpa using hstart), hhead]
    simp [hread, hmicros]

theorem offset?_micros (o : Option Offset) :
    offset? (o.map Offset.micros) = .ok (o.map Offset.legible) := by
  cases o with
  | none => rfl
  | some o =>
    simp only [Option.map_some, offset?, Offset.legible, Offset.ofMicros]
    split
    · rfl
    · rw [dif_pos o.inRange]
      rfl

theorem ofFields_legible (t : TimeOfDay) :
    TimeOfDay.ofFields t.hour t.minute t.second t.micro (t.offset.map Offset.legible) =
      .ok t.legible := by
  rw [TimeOfDay.ofFields, dif_pos t.inDay]
  rfl

/-! ## Texts -/

/-- Dates and times are written with these characters. -/
def isIsoChar (c : Char) : Bool := c.isDigit || [' ', '+', '-', '.', ':'].contains c

theorem isIsoChar_cases {c : Char} (h : isIsoChar c = true) :
    c.isDigit = true ∨ c = ' ' ∨ c = '+' ∨ c = '-' ∨ c = '.' ∨ c = ':' := by
  simpa [isIsoChar] using h

theorem isIsoChar_of_isDigit {c : Char} (h : c.isDigit = true) : isIsoChar c = true := by
  simp [isIsoChar, h]

theorem toNat_lt_of_isIsoChar {c : Char} (h : isIsoChar c = true) : c.toNat < 128 := by
  rcases isIsoChar_cases h with hdigit | rfl | rfl | rfl | rfl | rfl
  · have := Reading.isDigit_range hdigit
    omega
  all_goals decide

theorem isIsoChar_of_mem_dateText {d : Date} {c : Char} (h : c ∈ d.text.toList) :
    isIsoChar c = true := by
  rcases Date.char_cases h with hdigit | rfl
  · exact isIsoChar_of_isDigit hdigit
  · rfl

theorem isIsoChar_of_mem_timeText {t : TimeOfDay} {c : Char} (h : c ∈ t.text.toList) :
    isIsoChar c = true := by
  have hclock : ∀ {h m s u}, c ∈ clockChars h m s u → isIsoChar c = true := fun hc => by
    rcases clockChar_cases hc with hdigit | rfl | rfl
    · exact isIsoChar_of_isDigit hdigit
    · rfl
    · rfl
  rw [toList_timeText, List.mem_append] at h
  rcases h with h | h
  · exact hclock h
  cases hoffset : t.offset with
  | none => simp [hoffset] at h
  | some o =>
    simp only [hoffset, Option.map_some, Option.getD_some, offsetChars, List.mem_cons] at h
    rcases h with rfl | h
    · split <;> rfl
    · split at h
      · exact hclock (s := 0) (u := 0) (List.mem_append_left _ h)
      · exact hclock h

theorem isIsoChar_of_mem_dateTimeText {d : DateTime} {c : Char} (h : c ∈ (d.text " ").toList) :
    isIsoChar c = true := by
  simp only [DateTime.text, String.toList_append, List.mem_append] at h
  rcases h with (h | h) | h
  · exact isIsoChar_of_mem_dateText h
  · obtain rfl : c = ' ' := by simpa using h
    rfl
  · exact isIsoChar_of_mem_timeText h

/-- The text of a time is read as the time, but for what is lost of its offset. -/
theorem time_text (t : TimeOfDay) : time t.text = .ok t.legible := by
  have hunits : units t.text = t.text.toList :=
    units_eq_toList fun c hc => toNat_lt_of_isIsoChar (isIsoChar_of_mem_timeText hc)
  have hmark : (t.text.toList.head? == some 'T') = false := by
    rw [beq_eq_false_iff_ne]
    intro h
    exact absurd (isIsoChar_of_mem_timeText (List.mem_of_mem_head? h)) (by decide)
  simp only [time, hunits, hmark, Bool.false_eq_true, if_false, timeFields?_text, offset?_micros,
    checked, bind, Except.bind, ofFields_legible]

/-- A date ends where the time begins. -/
theorem separatorAt_dateText (d : Date) (c : Char) (r : List Char) :
    separatorAt (d.text.toList ++ c :: r) = 10 := by
  obtain ⟨hyear, hmonth, -⟩ := d.length_toDigits_le
  have hlength : (d.text.toList ++ c :: r).length = 11 + r.length := by
    rw [List.length_append, List.length_cons, d.length_text]
    omega
  have hyears := length_padded hyear
  have hhyphen : (d.text.toList ++ c :: r)[4]? = some '-' := by
    rw [d.toList_text, List.append_assoc, List.getElem?_append_right (by omega), hyears]
    rfl
  have hweek : (d.text.toList ++ c :: r)[5]? ≠ some 'W' := by
    rw [d.toList_text, List.append_assoc, List.getElem?_append_right (by omega), hyears]
    have hhead := head?_padded_ne 2 d.month ('-' :: ((padded 2 d.day).toList ++ [] ++ c :: r))
    rw [List.head?_eq_getElem?] at hhead
    simpa using hhead
  simp only [separatorAt, hlength, hhyphen]
  rw [if_neg (by omega), if_pos (by rfl), if_neg (by simpa using hweek)]

/-- The text of an instant is read as the instant, but for what is lost of its offset. -/
theorem dateTime_text (d : DateTime) :
    dateTime (d.text " ") = .ok { d with time := d.time.legible } := by
  obtain ⟨hyear, hmonth, hday⟩ := d.date.length_toDigits_le
  have htext : (d.text " ").toList = d.date.text.toList ++ ' ' :: d.time.text.toList := by
    simp [DateTime.text]
  have hunits : units (d.text " ") = d.date.text.toList ++ ' ' :: d.time.text.toList :=
    (units_eq_toList fun c hc =>
      toNat_lt_of_isIsoChar (isIsoChar_of_mem_dateTimeText hc)).trans htext
  have hdate : dateFields? (d.date.text.toList ++ ' ' :: d.time.text.toList) 10 =
      some (d.date.year, d.date.month, d.date.day) := by
    rw [d.date.toList_text]
    simpa using dateFields?_padded hyear hmonth hday (' ' :: d.time.text.toList) 10
  have hrest : (d.date.text.toList ++ ' ' :: d.time.text.toList).drop 10 =
      ' ' :: d.time.text.toList := List.drop_left' d.date.length_text
  simp only [dateTime, hunits, separatorAt_dateText, hdate, hrest]
  rw [if_pos (by decide), timeFields?_text]
  simp only [offset?_micros, d.date.ofFields_eq, checked, bind, Except.bind, ofFields_legible]

end Iso

end Hypermedia
