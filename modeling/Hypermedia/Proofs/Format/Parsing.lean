import Hypermedia.Proofs.Format.Converting

/-!
# What becomes of what clients send

What a client sends to a column with values of a type of its own becomes such a value, or the client
is told that it is invalid (`ColumnType.parse_settles`). What breaks this is listed by
`ColumnType.Breaks`: numbers that are too large, texts that are no decimals, identifiers that are no
texts, and values that have to be written, to be read as a text or to be refused, though an integer
in them is too long for it.
-/

namespace Hypermedia.ColumnType

variable {type : ColumnType} {hasRoom : Nat → Bool} {v : Value}

open Conversion

/-- The column has values of a type of its own; the others take every value as it is. -/
def isTyped : ColumnType → Bool
  | .json | .custom => false
  | _ => true

/-- What breaks the conversion for a column. -/
inductive Breaks (hasRoom : Nat → Bool) : ColumnType → Value → Prop
  /-- An infinity is no integer. -/
  | infinity (negative : Bool) : Breaks hasRoom .integer (.float (.infinite negative))
  /-- An integer may be beyond all doubles. -/
  | noDouble {w n} : whole? w = some n → Binary64.ofInt? n = none → Breaks hasRoom .float w
  /-- A text may spell no decimal, or none of its size. -/
  | noDecimal {s} : (∀ d ∈ Reading.decimal? s.toList, d.inRange = false) →
      Breaks hasRoom .numeric (.text s)
  | tornDecimal (t) : Breaks hasRoom .numeric (.torn t)
  | parts {s ds e} : PartsBreak s ds e → Breaks hasRoom .numeric (.list [s, ds, e])
  /-- There may be no duration of so many days. -/
  | noDays {w n} : whole? w = some n → (∀ d, Duration.ofWholeDays n ≠ .ok d) →
      Breaks hasRoom .interval w
  | noFraction {x} : x ≠ .nan → (∀ d, Duration.ofDays x ≠ .ok d) →
      Breaks hasRoom .interval (.float x)
  /-- Only texts are read as identifiers. -/
  | noText {d} : d ≠ .null → (∀ s, d ≠ .text s) → (∀ t, d ≠ .torn t) →
      Breaks hasRoom .uuid (Format.ofDocument d)
  /-- A number asks for so many zeros, and there may be no room for them. -/
  | noRoom {w n} : whole? w = some n → TooMany hasRoom n → Breaks hasRoom .binary w
  /-- What is read as a text is written first, and an integer in it may be too long for that. -/
  | unwritten {t w} : t ∈ [.string, .text, .date, .dateTime, .time] → w.isShort = false →
      Breaks hasRoom t w
  /-- A list or an object that is refused is written for the client, likewise. -/
  | untold {t w} : t ∈ [.integer, .float, .numeric, .interval, .binary] → hasParts w = true →
      w.isShort = false → Breaks hasRoom t w

/-- What breaks a conversion is something, and has not the column's type already. -/
theorem Breaks.holds_eq (h : type.Breaks hasRoom v) : v.isNull = false ∧ type.holds v = false := by
  have hwhole : ∀ {w n}, whole? w = some n →
      w.isNull = false ∧ float.holds w = false ∧ interval.holds w = false ∧
        binary.holds w = false := fun {w n} hn => by
    cases w with
    | bool _ | int _ => exact ⟨rfl, rfl, rfl, rfl⟩
    | _ => cases hn
  cases h with
  | noDouble hn _ => exact ⟨(hwhole hn).1, (hwhole hn).2.1⟩
  | noDays hn _ => exact ⟨(hwhole hn).1, (hwhole hn).2.2.1⟩
  | noRoom hn _ => exact ⟨(hwhole hn).1, (hwhole hn).2.2.2⟩
  | @noText d hnull htext htorn =>
    cases d with
    | null => exact absurd rfl hnull
    | text s => exact absurd rfl (htext s)
    | torn t => exact absurd rfl (htorn t)
    | _ => exact ⟨rfl, rfl⟩
  | unwritten htype hlong =>
    cases v with
    | int _ | list _ | object _ =>
      simp only [List.mem_cons, List.not_mem_nil, or_false] at htype
      rcases htype with rfl | rfl | rfl | rfl | rfl <;> exact ⟨rfl, rfl⟩
    | _ => cases hlong
  | untold htype hparts =>
    cases v with
    | list _ | object _ =>
      simp only [List.mem_cons, List.not_mem_nil, or_false] at htype
      rcases htype with rfl | rfl | rfl | rfl | rfl <;> exact ⟨rfl, rfl⟩
    | _ => cases hparts
  | _ => exact ⟨rfl, rfl⟩

/-- A list or an object that cannot be written is refused by its value or its kind, unless it makes
the conversion fail. -/
theorem refuses_of_long (htype : type ∈ [.integer, .float, .numeric, .interval, .binary])
    (hparts : hasParts v = true) (hlong : v.isShort = false) :
    Fails (type.convert hasRoom v) ∨ Refuses (type.convert hasRoom v) := by
  cases type with
  | numeric => exact (refuses_toDecimal hparts hlong).imp (·.map _) (·.map _)
  | binary => exact .inr ((refuses_toBytes hparts hlong).map _)
  | integer | float | interval =>
    cases v with
    | list _ | object _ => exact .inr ⟨_, .inr rfl⟩
    | _ => cases hparts
  | _ => simp at htype

/-- What breaks a conversion makes it fail, or is refused by it but cannot be written. -/
theorem Breaks.fails (h : type.Breaks hasRoom v) :
    Fails (type.convert hasRoom v) ∨ Refuses (type.convert hasRoom v) ∧ v.isShort = false := by
  cases h with
  | infinity s => exact .inl (Fails.map (r := toInt (.float (.infinite s))) (fails_overflow _) .int)
  | noDouble hn hnone => exact .inl ((fails_toBinary64 hn hnone).map _)
  | @noDecimal s hs =>
    refine .inl (Fails.map (r := toDecimal (.text s)) ?_ _)
    unfold toDecimal
    dsimp only
    split
    · next x hx => exact fails_bounded (hs x hx)
    · exact fails_noDecimal
  | tornDecimal t =>
    exact .inl (Fails.map (r := toDecimal (.torn t)) fails_noDecimal .decimal)
  | @parts s ds e hparts =>
    exact .inl (Fails.map (r := toDecimal (.list [s, ds, e])) (fails_decimalOfParts hparts) _)
  | noDays hn hnone =>
    rw [convert, toDuration_whole hn]
    exact .inl ((fails_durationOutcome (ofMicros_ne_nan _) hnone).map _)
  | noFraction hx hnone =>
    exact .inl ((fails_durationOutcome (ofDays_ne_nan hx) hnone).map _)
  | @noText d hnull htext htorn =>
    refine .inl (Fails.map (r := toUuid (Format.ofDocument d)) ?_ _)
    cases d with
    | null => exact absurd rfl hnull
    | text s => exact absurd rfl (htext s)
    | torn t => exact absurd rfl (htorn t)
    | _ => exact fails_noAttribute _
  | noRoom hn hroom => exact .inl ((fails_zeros hroom hn).map _)
  | unwritten htype hlong =>
    have htext : type.convert hasRoom v = .error .tooLong := by
      cases type with
      | string | text | date | dateTime | time =>
        simp only [convert, toText_of_long hlong]
        rfl
      | _ => simp at htype
    exact .inr ⟨⟨_, .inl htext⟩, hlong⟩
  | untold htype hparts hlong =>
    exact (refuses_of_long htype hparts hlong).imp_right fun h => ⟨h, hlong⟩

/-- Every conversion of what does not break it is settled. -/
theorem settles_convert (htype : type.isTyped = true) {d : Json} (hnull : d ≠ .null)
    (h : ¬type.Breaks hasRoom (Format.ofDocument d)) :
    Settles (type.convert hasRoom (Format.ofDocument d)) := by
  cases type with
  | json | custom => cases htype
  | boolean => exact settles_ok _
  | string | text => exact (settles_toText _).map _
  | date | dateTime | time =>
    exact (settles_toText _).bind fun _ _ => (settles_isoOutcome _ _).map _
  | integer =>
    refine (settles_toInt fun s => ?_).map _
    rintro rfl
    exact h (.infinity s)
  | float => exact (settles_toBinary64 fun n hn hnone => h (.noDouble hn hnone)).map _
  | numeric =>
    refine (settles_toDecimal (fun t ht => ?_) (fun s hs => ?_) fun s ds e hlist hparts => ?_).map _
    · exact h (ht ▸ .tornDecimal t)
    · subst hs
      by_contra hnone
      refine h (.noDecimal fun x hx => ?_)
      simpa using fun hrange => hnone ⟨x, hx, hrange⟩
    · exact h (hlist ▸ .parts hparts)
  | interval =>
    refine (settles_toDuration (fun n hn => ?_) fun x hx => ?_).map _
    · by_contra hnone
      exact h (.noDays hn fun y hy => hnone ⟨y, hy⟩)
    · subst hx
      by_contra hnone
      rw [not_or] at hnone
      exact h (.noFraction hnone.1 fun y hy => hnone.2 ⟨y, hy⟩)
  | uuid =>
    have htext : ∃ s, Conversion.toUuid (Format.ofDocument d) = uuidOfText s := by
      by_contra hnone
      refine h (.noText hnull (fun s hs => hnone ⟨s, ?_⟩) fun t ht => hnone ⟨t.display, ?_⟩)
      · rw [hs]
        rfl
      · rw [ht]
        rfl
    obtain ⟨s, hs⟩ := htext
    rw [convert, hs]
    exact (settles_uuidOfText s).map _
  | binary => exact (settles_toBytes fun n hn hmany => h (.noRoom hn hmany)).map _

/-- No number is refused because it has too many digits. -/
theorem not_refuses_int {n : Int} (hholds : type.holds (.int n) = false)
    (htype : type ∈ [.integer, .float, .numeric, .interval, .binary])
    (hlong : Reading.isShort n = false) : ¬Refuses (type.convert hasRoom (.int n)) := by
  cases type with
  | integer => cases hholds
  | float =>
    cases hn : Binary64.ofInt? n with
    | none => exact ((fails_toBinary64 rfl hn).map _).not_refuses
    | some x =>
      simp only [convert, toBinary64, whole?, hn]
      exact not_refuses_ok _
  | numeric => exact not_refuses_ok _
  | interval =>
    have hnumber : Duration.ofWholeDays n ≠ .error .nan := ofMicros_ne_nan _
    rw [convert, toDuration_whole rfl]
    generalize Duration.ofWholeDays n = days at hnumber ⊢
    cases days with
    | ok d => exact not_refuses_ok _
    | error f => exact ((fails_durationOutcome hnumber fun _ => by simp).map _).not_refuses
  | binary =>
    have hfits : fitsWord n = false := Bool.eq_false_iff.2 fun hfits =>
      absurd (isShort_of_fitsWord hfits) (by simp [hlong])
    exact ((fails_zeros (.inl hfits) rfl).map _).not_refuses
  | _ => simp at htype

/-- What is refused without breaking the conversion can be written. -/
theorem isShort_of_refuses (htype : type.isTyped = true) {d : Json}
    (hholds : type.holds (Format.ofDocument d) = false)
    (h : ¬type.Breaks hasRoom (Format.ofDocument d))
    (hrefuses : Refuses (type.convert hasRoom (Format.ofDocument d))) :
    (Format.ofDocument d).isShort = true := by
  by_contra hlong
  rw [Bool.not_eq_true] at hlong
  cases type with
  | json | custom => cases htype
  | boolean => exact not_refuses_ok _ hrefuses
  | string | text | date | dateTime | time => exact h (.unwritten (by simp) hlong)
  | uuid =>
    refine h (.noText ?_ (fun s => ?_) fun t => ?_)
    all_goals
      rintro rfl
      cases hlong
  | integer | float | numeric | interval | binary =>
    cases d with
    | int n => exact not_refuses_int hholds (by simp) hlong hrefuses
    | array items => exact h (.untold (by simp) rfl hlong)
    | object fields => exact h (.untold (by simp) rfl hlong)
    | _ => cases hlong

/-! ## What clients send -/

theorem parse_eq_ok_iff {name : String} {w : Value} (hnull : v.isNull = false)
    (hholds : type.holds v = false) :
    type.parse hasRoom name v = .ok w ↔ type.convert hasRoom v = .ok w := by
  have hgoes : (v.isNull || type.holds v) = false := by simp [hnull, hholds]
  rw [parse, hgoes, if_neg (by decide)]
  split <;> simp_all

/-- What is made of a value that is neither nothing nor of the column's type. -/
theorem parse_of_convert (hasRoom : Nat → Bool) (name : String) (hnull : v.isNull = false)
    (hholds : type.holds v = false) :
    (∀ w, type.convert hasRoom v = .ok w → type.parse hasRoom name v = .ok w) ∧
    (Refuses (type.convert hasRoom v) →
      ∃ text, type.parse hasRoom name v = .error (refusal name v text)) ∧
    (Fails (type.convert hasRoom v) →
      ∃ f, type.parse hasRoom name v = .error f ∧ f.status = 500) := by
  have hgoes : (v.isNull || type.holds v) = false := by simp [hnull, hholds]
  refine ⟨fun w hw => ?_, fun ⟨reason, hr⟩ => ⟨reason, ?_⟩,
    fun ⟨f, hf, hstatus, hkind⟩ => ⟨f, ?_, hstatus⟩⟩
  · simp [parse, hgoes, hw]
  · rcases hr with hr | hr
    all_goals
      rw [parse, hgoes, hr]
      rfl
  · rw [parse, hgoes, hf, if_neg (by decide)]
    split
    · next t heq => exact absurd (Except.error.inj heq) (hkind t).1
    · next t heq => exact absurd (Except.error.inj heq) (hkind t).2
    · rfl

/-- A refused value that can be written is told to the client as invalid. -/
theorem refusal_of_isShort (name : String) (h : v.isShort = true) (reason : String) :
    ∃ text, refusal name v reason = .invalid text := by
  unfold refusal
  rw [Value.toText, if_pos h]
  exact ⟨_, rfl⟩

/-- One that cannot be written ends in the fault of writing it. -/
theorem refusal_of_long (name : String) (h : v.isShort = false) (reason : String) :
    refusal name v reason = .tooLong := by
  unfold refusal
  rw [toText_of_long h]

/-- Nothing stays nothing. What does not break its conversion becomes a value of the column's type,
or the client is told that it is invalid; what breaks it ends in a fault that is not the
client's. -/
theorem parse_settles (htype : type.isTyped = true) (hasRoom : Nat → Bool) (name : String)
    (d : Json) :
    (d = .null → type.parse hasRoom name (Format.ofDocument d) = .ok .null) ∧
    (d ≠ .null → ¬type.Breaks hasRoom (Format.ofDocument d) →
      (∃ w, type.parse hasRoom name (Format.ofDocument d) = .ok w ∧ type.holds w = true) ∨
        ∃ text, type.parse hasRoom name (Format.ofDocument d) = .error (.invalid text)) ∧
    (type.Breaks hasRoom (Format.ofDocument d) →
      ∃ f, type.parse hasRoom name (Format.ofDocument d) = .error f ∧ f.status = 500) := by
  refine ⟨?_, fun hnull hsound => ?_, fun hbreaks => ?_⟩
  · rintro rfl
    rfl
  · cases hholds : type.holds (Format.ofDocument d) with
    | true =>
      refine .inl ⟨_, ?_, hholds⟩
      rw [parse, if_pos (by simp [hholds])]
    | false =>
      have hvalue : (Format.ofDocument d).isNull = false := by
        cases d with
        | null => exact absurd rfl hnull
        | _ => rfl
      obtain ⟨hok, hbad, -⟩ := parse_of_convert hasRoom name hvalue hholds
      rcases settles_convert htype hnull hsound with ⟨w, hw⟩ | hrefuses
      · exact .inl ⟨w, hok w hw, holds_of_convert hw⟩
      · have hshort := isShort_of_refuses htype hholds hsound hrefuses
        obtain ⟨reason, hreason⟩ := hbad hrefuses
        obtain ⟨text, htext⟩ := refusal_of_isShort name hshort reason
        exact .inr ⟨text, hreason.trans (congrArg _ htext)⟩
  · obtain ⟨hvalue, hholds⟩ := hbreaks.holds_eq
    obtain ⟨-, hbad, hfails⟩ := parse_of_convert hasRoom name hvalue hholds
    rcases hbreaks.fails with h | ⟨hrefuses, hlong⟩
    · exact hfails h
    · obtain ⟨reason, hreason⟩ := hbad hrefuses
      exact ⟨_, hreason, by rw [refusal_of_long name hlong]; rfl⟩

/-- A name is no number of pages, which the client is told, and no price, which it is not told. -/
theorem parse_settles_twelve :
    ((∃ w, integer.parse (fun _ => true) "pages" (.text "twelve") = .ok w ∧
        integer.holds w = true) ∨
      ∃ text, integer.parse (fun _ => true) "pages" (.text "twelve") = .error (.invalid text)) ∧
    ∃ f, numeric.parse (fun _ => true) "price" (.text "twelve") = .error f ∧ f.status = 500 := by
  have htwelve : Reading.decimal? "twelve".toList = none := by decide
  have hinteger : integer.isTyped = true := rfl
  have hnumeric : numeric.isTyped = true := rfl
  constructor
  · obtain ⟨-, hsettled, -⟩ := parse_settles hinteger (fun _ => true) "pages" (.text "twelve")
    refine hsettled nofun fun hbreaks => ?_
    cases hbreaks with
    | unwritten htype => simp at htype
    | untold _ hparts => cases hparts
  · obtain ⟨-, -, hbroken⟩ := parse_settles hnumeric (fun _ => true) "price" (.text "twelve")
    exact hbroken (.noDecimal fun x hx => absurd (htwelve.symm.trans hx) nofun)

/-- Infinity gives no number of pages, and the client is not told. -/
theorem infinity_breaks :
    (∀ w, integer.parse (fun _ => true) "pages" (.float (.infinite false)) ≠ .ok w) ∧
    ∀ text, integer.parse (fun _ => true) "pages" (.float (.infinite false)) ≠
      .error (.invalid text) :=
  ⟨nofun, nofun⟩

end Hypermedia.ColumnType
