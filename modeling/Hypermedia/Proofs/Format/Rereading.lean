import Hypermedia.Column
import Hypermedia.Format.Encoding
import Hypermedia.Json.Reader
import Hypermedia.Proofs.Calendar.Times
import Hypermedia.Proofs.Relational.Plain
import Hypermedia.Proofs.Text.Torn

/-!
# Values are read as they are shown

A client that sends back what it was shown gives the value again (`ColumnType.Rereads`): the text
of a string without escapes is read as the string (`Json.read?_stringText`), and the texts of dates,
times and instants as what they show, except that an offset of less than a second is lost
(`ColumnType.rereads_calendar`).
-/

namespace Hypermedia

namespace Json

/-! ## Strings without escapes -/

/-- The character stands for itself in a string. -/
def isPlainChar (c : Char) : Bool := 32 ≤ c.toNat && c.toNat < 127 && c != '"' && c != '\\'

theorem isPlainChar_iff {c : Char} :
    isPlainChar c = true ↔ 32 ≤ c.toNat ∧ c.toNat < 127 ∧ c ≠ '"' ∧ c ≠ '\\' := by
  simp [isPlainChar, and_assoc]

theorem charText_of_isPlainChar {c : Char} (h : isPlainChar c = true) : charText c = [c] := by
  obtain ⟨hlow, hhigh, hquote, hescape⟩ := isPlainChar_iff.1 h
  have hne : ∀ d : Char, d.toNat < 32 → c ≠ d := by
    rintro d hd rfl
    omega
  have hline := hne '\n' (by decide)
  have hreturn := hne '\r' (by decide)
  have htab := hne '\t' (by decide)
  have hback : c.toNat ≠ 8 := by omega
  have hfeed : c.toNat ≠ 12 := by omega
  simp [charText, hquote, hescape, hline, hreturn, htab, hback, hfeed, hlow, hhigh]

/-- A string without escapes is read up to its closing quote. -/
theorem stringFrom?_plain {s : List Char} (h : ∀ c ∈ s, isPlainChar c = true) {fuel : Nat}
    (hfuel : s.length < fuel) (seen : List Nat) (r : List Char) :
    stringFrom? fuel seen (s ++ '"' :: r) = some (seen.reverse ++ s.map Char.toNat, r) := by
  induction s generalizing fuel seen with
  | nil =>
    obtain ⟨n, rfl⟩ := Nat.exists_eq_add_of_lt hfuel
    rw [List.nil_append, List.map_nil, List.append_nil, stringFrom?]
  | cons c s ih =>
    obtain ⟨hlow, -, hquote, hescape⟩ := isPlainChar_iff.1 (h c List.mem_cons_self)
    cases fuel with
    | zero => exact absurd hfuel (Nat.not_lt_zero _)
    | succ fuel =>
      rw [List.cons_append, stringFrom?, if_neg (by omega),
        ih (fun d hd => h d (List.mem_cons_of_mem _ hd)) (Nat.lt_of_succ_lt_succ hfuel)]
      · simp
      all_goals simp_all

/-- The code points of a text of characters are those of this text. -/
theorem ofPoints_points (s : String) : ofPoints (Text.points s) = .text s := by
  rw [ofPoints, TornText.of?_points]
  exact congrArg Json.text (Text.ofPoints_points s)

/-- The text of a string without escapes is read as the string. -/
theorem read?_stringText {s : String} (h : ∀ c ∈ s.toList, isPlainChar c = true) :
    read? (stringText s) = some (.text s) := by
  have hchars : s.toList.flatMap charText = s.toList := by
    rw [List.flatMap_def, List.map_congr_left fun c hc => charText_of_isPlainChar (h c hc),
      ← List.flatMap_def, List.flatMap_singleton']
  have hfuel : s.toList.length < (s.toList ++ ['"']).length + 1 := by
    rw [List.length_append]
    omega
  have hstring : string? (s.toList ++ ['"']) = some (Text.points s, []) := by
    rw [string?, stringFrom?_plain h hfuel, List.reverse_nil, List.nil_append]
    rfl
  have hquote : ('"' : Char).toNat ≠ 0xfeff := by decide
  simp [read?, stringText, hchars, skipBlanks, isBlank, value?, hstring, ofPoints_points]

end Json

/-! ## Values of columns -/

/-- A value of a column is read again as it is shown: the document that shows it is a string, and
what is given to the column with this string is the value. -/
def ColumnType.Rereads (type : ColumnType) (hasRoom : Nat → Bool) (detail : Detail)
    (name : String) (v : Value) : Prop :=
  ∃ body s, Format.compact detail v = .ok body ∧ Json.read? body = some (.text s) ∧
    type.parse hasRoom name (.text s) = .ok v

namespace ColumnType

variable {type : ColumnType} {hasRoom : Nat → Bool} {detail : Detail} {name : String} {v : Value}
  {s : String}

/-- Where the string has no escapes it is enough to convert it. -/
theorem rereads_iff (hs : Format.document detail v = .ok (.text s))
    (hplain : ∀ c ∈ s.toList, Json.isPlainChar c = true) :
    type.Rereads hasRoom detail name v ↔ type.parse hasRoom name (.text s) = .ok v := by
  have hbody : Format.compact detail v = .ok (Json.stringText s) := by
    rw [Format.compact, hs]
    rfl
  constructor
  · rintro ⟨body, s', hbody', hread, hparse⟩
    rw [hbody] at hbody'
    obtain rfl := Except.ok.inj hbody'
    rw [Json.read?_stringText hplain] at hread
    obtain rfl : s = s' := by simpa using hread
    exact hparse
  · exact fun hparse => ⟨_, s, hbody, Json.read?_stringText hplain, hparse⟩

/-- The characters of dates and times need no escapes. -/
theorem isPlainChar_of_isIsoChar {c : Char} (h : Iso.isIsoChar c = true) :
    Json.isPlainChar c = true := by
  rcases Iso.isIsoChar_cases h with hdigit | rfl | rfl | rfl | rfl | rfl
  · have hrange := Reading.isDigit_range hdigit
    refine Json.isPlainChar_iff.2 ⟨by omega, by omega, ?_, ?_⟩ <;>
      · rintro rfl
        exact absurd hdigit (by decide)
  all_goals decide

theorem rereads_date (d : Date) : date.Rereads hasRoom detail name (.date d) := by
  refine (rereads_iff rfl fun c hc =>
    isPlainChar_of_isIsoChar (Iso.isIsoChar_of_mem_dateText hc)).2 ?_
  have hconvert : date.convert hasRoom (.text d.text) = .ok (.date d) := by
    rw [(convert_text d.text).1, Iso.date_text]
    rfl
  rw [parse, if_neg (by simp [Value.isNull, holds]), hconvert]

theorem rereads_time {t : TimeOfDay} :
    time.Rereads hasRoom detail name (.time t) ↔ t.legible = t := by
  have hconvert : time.convert hasRoom (.text t.text) = .ok (.time t.legible) := by
    rw [(convert_text t.text).2.1, Iso.time_text]
    rfl
  rw [rereads_iff rfl fun c hc => isPlainChar_of_isIsoChar (Iso.isIsoChar_of_mem_timeText hc),
    parse, if_neg (by simp [Value.isNull, holds]), hconvert]
  simp

theorem rereads_dateTime {d : DateTime} :
    dateTime.Rereads hasRoom detail name (.dateTime d) ↔ d.time.legible = d.time := by
  have hconvert : dateTime.convert hasRoom (.text (d.text " ")) =
      .ok (.dateTime { d with time := d.time.legible }) := by
    rw [(convert_text (d.text " ")).2.2, Iso.dateTime_text]
    rfl
  rw [rereads_iff rfl fun c hc => isPlainChar_of_isIsoChar (Iso.isIsoChar_of_mem_dateTimeText hc),
    parse, if_neg (by simp [Value.isNull, holds]), hconvert]
  cases d
  simp

/-- Every date is read again as it is shown, and so are the times and instants that have no offset,
none from universal time or one of a second at least. -/
theorem rereads_calendar (hasRoom : Nat → Bool) (detail : Detail) (name : String) :
    (∀ d, date.Rereads hasRoom detail name (.date d)) ∧
    (∀ t, time.Rereads hasRoom detail name (.time t) ↔
      ∀ o ∈ t.offset, o.micros = 0 ∨ 1000000 ≤ o.micros.natAbs) ∧
    ∀ d, dateTime.Rereads hasRoom detail name (.dateTime d) ↔
      ∀ o ∈ d.time.offset, o.micros = 0 ∨ 1000000 ≤ o.micros.natAbs :=
  ⟨rereads_date, fun _ => rereads_time.trans TimeOfDay.legible_eq_self,
    fun _ => rereads_dateTime.trans TimeOfDay.legible_eq_self⟩

/-- Midnight a microsecond east of universal time is read as midnight there. -/
theorem not_rereads_midnight : ¬time.Rereads (fun _ => true) .brief "opens"
    (.time ⟨0, 0, 0, 0, some ⟨1, by decide⟩, by decide⟩) := by
  rw [rereads_time]
  decide

end ColumnType

end Hypermedia
