import Hypermedia.Format.Encoding
import Hypermedia.Proofs.Number.Spelled
import Hypermedia.Proofs.Outcome
import Hypermedia.Proofs.Relational.Plain

/-!
# Conversions of what clients send

A conversion settles a value if it gives one of the wanted type or refuses it by its value or its
kind (`Conversion.Settles`), and it fails if it ends in another fault (`Conversion.Fails`). Values
of documents are settled, each conversion up to conditions of its own: numbers that fit into the
result, texts that are decimals, room for bytes. A list or an object in which an integer is too long
to be written is never given, so it is refused or fails.
-/

namespace Hypermedia

namespace Conversion

variable {α β : Type} {r : Except Fault α} {f : α → Except Fault β} {v : Value}
  {hasRoom : Nat → Bool}

/-! ## Settled and broken conversions -/

/-- A value is refused by its value or its kind. -/
def Refuses (r : Except Fault α) : Prop :=
  ∃ text, r = .error (.badValue text) ∨ r = .error (.badType text)

/-- A value is given, or refused by its value or its kind. -/
def Settles (r : Except Fault α) : Prop := (∃ a, r = .ok a) ∨ Refuses r

/-- There is a fault that is neither of the value nor of its kind, and that is no fault of the
client. -/
def Fails (r : Except Fault α) : Prop :=
  ∃ f, r = .error f ∧ f.status = 500 ∧ ∀ text, f ≠ .badValue text ∧ f ≠ .badType text

theorem settles_ok (a : α) : Settles (.ok a : Except Fault α) := .inl ⟨a, rfl⟩

theorem settles_badValue (text : String) : Settles (.error (.badValue text) : Except Fault α) :=
  .inr ⟨text, .inl rfl⟩

theorem settles_badType (text : String) : Settles (.error (.badType text) : Except Fault α) :=
  .inr ⟨text, .inr rfl⟩

theorem fails_overflow (text : String) : Fails (.error (.overflow text) : Except Fault α) :=
  ⟨_, rfl, rfl, fun _ => ⟨nofun, nofun⟩⟩

theorem fails_noDecimal : Fails (.error .noDecimal : Except Fault α) :=
  ⟨_, rfl, rfl, fun _ => ⟨nofun, nofun⟩⟩

theorem fails_noMemory : Fails (.error .noMemory : Except Fault α) :=
  ⟨_, rfl, rfl, fun _ => ⟨nofun, nofun⟩⟩

theorem fails_noAttribute (text : String) : Fails (.error (.noAttribute text) : Except Fault α) :=
  ⟨_, rfl, rfl, fun _ => ⟨nofun, nofun⟩⟩

theorem Settles.bind (h : Settles r) (hf : ∀ a, r = .ok a → Settles (f a)) :
    Settles (r >>= f) := by
  rcases h with ⟨a, rfl⟩ | ⟨text, rfl | rfl⟩
  · exact hf a rfl
  · exact settles_badValue text
  · exact settles_badType text

theorem Refuses.map (h : Refuses r) (g : α → β) : Refuses (r.map g) := by
  obtain ⟨text, rfl | rfl⟩ := h
  · exact ⟨text, .inl rfl⟩
  · exact ⟨text, .inr rfl⟩

theorem Settles.map (h : Settles r) (g : α → β) : Settles (r.map g) := by
  rcases h with ⟨a, rfl⟩ | h
  · exact settles_ok _
  · exact .inr (h.map g)

theorem not_refuses_ok (a : α) : ¬Refuses (.ok a : Except Fault α) := by
  rintro ⟨text, h | h⟩ <;> cases h

theorem Fails.not_refuses (h : Fails r) : ¬Refuses r := by
  obtain ⟨f, rfl, -, hf⟩ := h
  rintro ⟨text, h | h⟩
  · exact (hf text).1 (Except.error.inj h)
  · exact (hf text).2 (Except.error.inj h)

theorem Settles.refuses (h : Settles r) (hne : ∀ a, r ≠ .ok a) : Refuses r :=
  h.resolve_left fun ⟨a, ha⟩ => hne a ha

theorem Fails.bind (h : Fails r) (f : α → Except Fault β) : Fails (r >>= f) := by
  obtain ⟨e, rfl, he⟩ := h
  exact ⟨e, rfl, he⟩

theorem Fails.map (h : Fails r) (g : α → β) : Fails (r.map g) := by
  obtain ⟨e, rfl, he⟩ := h
  exact ⟨e, rfl, he⟩

/-! ## Decimals of parts -/

theorem word_eq_ok {kind : String} {n : Int} (h : fitsWord n = true) : word kind n = .ok n :=
  if_pos h

theorem fails_word {n : Int} (h : fitsWord n = false) (kind : String) : Fails (word kind n) := by
  rw [word, if_neg (by simp [h])]
  exact fails_overflow _

/-- The value is a whole number that fits into no machine word. -/
def NoWord (v : Value) : Prop := ∃ n, whole? v = some n ∧ fitsWord n = false

theorem settles_of_word (h : ¬NoWord v) {n : Int} (hn : whole? v = some n) (kind : String) :
    word kind n = .ok n :=
  word_eq_ok (by simpa using fun hfits => h ⟨n, hn, hfits⟩)

theorem settles_signOf (h : ¬NoWord v) : Settles (signOf v) := by
  unfold signOf
  split
  · next n hn =>
    refine Settles.bind (settles_of_word h hn _ ▸ settles_ok n) fun k _ => ?_
    split
    · exact settles_ok _
    · split
      · exact settles_ok _
      · exact settles_badValue _
  · exact settles_badValue _

theorem fails_signOf (h : NoWord v) : Fails (signOf v) := by
  obtain ⟨n, hn, hfits⟩ := h
  rw [signOf, hn]
  exact (fails_word hfits _).bind _

theorem settles_digitOf (h : ¬NoWord v) : Settles (digitOf v) := by
  unfold digitOf
  split
  · next n hn =>
    refine Settles.bind (settles_of_word h hn _ ▸ settles_ok n) fun k _ => ?_
    split
    · exact settles_ok _
    · exact settles_badValue _
  · exact settles_badValue _

theorem fails_digitOf (h : NoWord v) : Fails (digitOf v) := by
  obtain ⟨n, hn, hfits⟩ := h
  rw [digitOf, hn]
  exact (fails_word hfits _).bind _

/-- Among the digits, the first that is none is a whole number that fits into no machine word. -/
def NoWordAmong (v : Value) : Prop :=
  ∃ ahead w behind, v = .list (ahead ++ w :: behind) ∧ (∀ u ∈ ahead, ∃ d, digitOf u = .ok d) ∧
    NoWord w

theorem settles_digitsOf (h : ¬NoWordAmong v) : Settles (digitsOf v) := by
  cases v with
  | list vs =>
    change Settles (vs.mapM digitOf)
    induction vs with
    | nil => exact settles_ok []
    | cons w vs ih =>
      have hw : ¬NoWord w := fun hw => h ⟨[], w, vs, rfl, by simp, hw⟩
      rw [List.mapM_cons]
      refine (settles_digitOf hw).bind fun d hd => (ih ?_).bind fun ds _ => settles_ok _
      rintro ⟨ahead, x, behind, heq, hahead, hx⟩
      obtain rfl := Value.list.inj heq
      exact h ⟨w :: ahead, x, behind, rfl,
        List.forall_mem_cons.2 ⟨⟨d, hd⟩, hahead⟩, hx⟩
  | _ => exact settles_badValue _

theorem fails_digitsOf (h : NoWordAmong v) : Fails (digitsOf v) := by
  obtain ⟨ahead, w, behind, rfl, hahead, hw⟩ := h
  change Fails ((ahead ++ w :: behind).mapM digitOf)
  induction ahead with
  | nil =>
    rw [List.nil_append, List.mapM_cons]
    exact (fails_digitOf hw).bind _
  | cons u ahead ih =>
    obtain ⟨⟨d, hd⟩, hahead⟩ := List.forall_mem_cons.1 hahead
    rw [List.cons_append, List.mapM_cons, hd]
    exact (ih hahead).bind _

theorem settles_bounded {d : Decimal} (h : d.inRange = true) : Settles (bounded d) := by
  rw [bounded, if_pos h]
  exact settles_ok d

theorem fails_bounded {d : Decimal} (h : d.inRange = false) : Fails (bounded d) := by
  rw [bounded, if_neg (by simp [h])]
  exact fails_noDecimal

/-- A sign, digits and an exponent of which the first that is not accepted is a whole number that
fits into no machine word, or that are all accepted but make no decimal of its size. -/
inductive PartsBreak (sign digits exponent : Value) : Prop
  | sign : NoWord sign → PartsBreak sign digits exponent
  | exponent {b} : signOf sign = .ok b → NoWord exponent → PartsBreak sign digits exponent
  | digits {b} : signOf sign = .ok b →
      (∃ n, whole? exponent = some n) ∨ exponent ∈ [.text "F", .text "n", .text "N"] →
      NoWordAmong digits → PartsBreak sign digits exponent
  | size {b n ds} : signOf sign = .ok b → whole? exponent = some n → fitsWord n = true →
      digitsOf digits = .ok ds → (Decimal.finite b (numberOf ds) n).inRange = false →
      PartsBreak sign digits exponent

theorem settles_decimalOfParts {s ds e : Value} (h : ¬PartsBreak s ds e) :
    Settles (decimalOfParts s ds e) := by
  unfold decimalOfParts
  refine (settles_signOf fun hs => h (.sign hs)).bind fun b hb => ?_
  split
  · exact (settles_digitsOf fun hds => h (.digits hb (.inr (by simp)) hds)).map _
  · exact (settles_digitsOf fun hds => h (.digits hb (.inr (by simp)) hds)).map _
  · exact (settles_digitsOf fun hds => h (.digits hb (.inr (by simp)) hds)).map _
  · exact settles_badValue _
  · exact settles_badValue _
  · split
    · next n hn =>
      have hword := settles_of_word (fun he => h (.exponent hb he)) hn "ssize_t"
      have hfits : fitsWord n = true := by
        simpa using fun hfits => h (.exponent hb ⟨n, hn, hfits⟩)
      rw [hword]
      refine Settles.bind (settles_ok n) fun k hk => ?_
      obtain rfl := Except.ok.inj hk
      refine (settles_digitsOf fun hds => h (.digits hb (.inl ⟨_, hn⟩) hds)).bind fun ds hds => ?_
      refine settles_bounded ?_
      simpa using fun hsize => h (.size hb hn hfits hds hsize)
    · exact settles_badValue _

/-- A whole number as the exponent has to fit into a machine word before the digits count. -/
theorem decimalOfParts_whole {s ds e : Value} {b : Bool} {n : Int} (hb : signOf s = .ok b)
    (hn : whole? e = some n) : decimalOfParts s ds e = (do
      let n ← word "ssize_t" n
      let ds ← digitsOf ds
      bounded (.finite b (numberOf ds) n)) := by
  rw [decimalOfParts, hb]
  cases e with
  | bool _ | int _ =>
    obtain rfl := Option.some.inj hn
    rfl
  | _ => cases hn

theorem fails_decimalOfParts {s ds e : Value} (h : PartsBreak s ds e) :
    Fails (decimalOfParts s ds e) := by
  cases h with
  | sign hs => exact (fails_signOf hs).bind _
  | exponent hb he =>
    obtain ⟨n, hn, hfits⟩ := he
    rw [decimalOfParts_whole hb hn]
    exact (fails_word hfits _).bind _
  | digits hb he hds =>
    rcases he with ⟨n, hn⟩ | hletter
    · rw [decimalOfParts_whole hb hn]
      cases hfits : fitsWord n with
      | false => exact (fails_word hfits _).bind _
      | true =>
        rw [word_eq_ok hfits]
        exact (fails_digitsOf hds).bind _
    · rw [decimalOfParts, hb]
      have hletters : e = .text "F" ∨ e = .text "n" ∨ e = .text "N" := by simpa using hletter
      rcases hletters with rfl | rfl | rfl
      all_goals exact (fails_digitsOf hds).map _
  | size hb hn hfits hds hsize =>
    rw [decimalOfParts_whole hb hn, word_eq_ok hfits]
    simp only [bind, Except.bind, hds]
    exact fails_bounded hsize

/-! ## Conversions of documents -/

theorem toText_of_long (h : v.isShort = false) : v.toText = .error .tooLong :=
  if_neg (by simp [h])

theorem settles_toText (v : Value) : Settles v.toText := by
  unfold Value.toText
  split
  · exact settles_ok _
  · exact settles_badValue _

theorem settles_intOfText (base : Nat) (s literal : String) :
    Settles (intOfText base s literal) := by
  unfold intOfText
  split
  · exact settles_ok _
  · exact settles_badValue _
  · exact settles_badValue _

theorem settles_binary64OfText (s literal : String) : Settles (binary64OfText s literal) := by
  unfold binary64OfText
  split
  · exact settles_ok _
  · exact settles_badValue _

theorem settles_isoOutcome (s : String) (x : Except Iso.Fault α) : Settles (isoOutcome s x) := by
  rcases x with (_ | f) | a
  · exact settles_badValue _
  · exact settles_badValue _
  · exact settles_ok a

theorem settles_toInt {d : Json} (h : ∀ s, d ≠ .float (.infinite s)) :
    Settles (toInt (Format.ofDocument d)) := by
  cases d with
  | bool b => exact settles_ok _
  | int n => exact settles_ok _
  | float x =>
    cases x with
    | nan => exact settles_badValue _
    | infinite s => exact absurd rfl (h s)
    | finite s m e => exact settles_ok _
  | text _ | torn _ => exact settles_intOfText _ _ _
  | null | array _ | object _ => exact settles_badType _

theorem settles_toBinary64 {d : Json}
    (h : ∀ n, whole? (Format.ofDocument d) = some n → Binary64.ofInt? n ≠ none) :
    Settles (toBinary64 (Format.ofDocument d)) := by
  have hwhole : ∀ n, Binary64.ofInt? n ≠ none → Settles (toBinary64 (.int n)) := fun n hn => by
    obtain ⟨x, hx⟩ := Option.ne_none_iff_exists'.1 hn
    simp only [toBinary64, whole?, hx]
    exact settles_ok x
  cases d with
  | bool b => exact hwhole _ (h _ rfl)
  | int n => exact hwhole n (h n rfl)
  | float x => exact settles_ok x
  | text _ | torn _ => exact settles_binary64OfText _ _
  | null | array _ | object _ => exact settles_badType _

theorem settles_toDecimal {d : Json} (htorn : ∀ t, d ≠ .torn t)
    (htext : ∀ s, d = .text s → ∃ x ∈ Reading.decimal? s.toList, x.inRange = true)
    (hparts : ∀ s ds e, Format.ofDocument d = .list [s, ds, e] → ¬PartsBreak s ds e) :
    Settles (toDecimal (Format.ofDocument d)) := by
  cases d with
  | bool b => exact settles_ok _
  | int n => exact settles_ok _
  | float x => exact settles_ok _
  | text s =>
    obtain ⟨x, hx, hrange⟩ := htext s rfl
    rw [Format.ofDocument, toDecimal, Option.mem_def.1 hx]
    exact settles_bounded hrange
  | torn t => exact absurd rfl (htorn t)
  | array items =>
    simp only [Format.ofDocument] at hparts ⊢
    match Format.ofDocuments items, hparts with
    | [s, ds, e], hparts => exact settles_decimalOfParts (hparts s ds e rfl)
    | [], _ | [_], _ | [_, _], _ | _ :: _ :: _ :: _ :: _, _ => exact settles_badValue _
  | null | object _ => exact settles_badType _

theorem settles_uuidOfText (s : String) : Settles (uuidOfText s) := by
  unfold uuidOfText
  dsimp only
  split
  · exact settles_badValue _
  · refine (settles_intOfText _ _ _).bind fun n _ => ?_
    split
    · split
      · exact settles_ok _
      · exact settles_badValue _
    · exact settles_badValue _

theorem settles_byteOf (v : Value) : Settles (byteOf v) := by
  unfold byteOf
  split
  · split
    · exact settles_ok _
    · exact settles_badValue _
  · exact settles_badType _

theorem settles_bytes (vs : List Value) : Settles (vs.mapM byteOf) := by
  induction vs with
  | nil => exact settles_ok []
  | cons v vs ih =>
    rw [List.mapM_cons]
    exact (settles_byteOf v).bind fun _ _ => ih.bind fun _ _ => settles_ok _

/-- A number asks for more zeros than a machine word counts, or than there is room for. -/
def TooMany (hasRoom : Nat → Bool) (n : Int) : Prop :=
  fitsWord n = false ∨ 0 ≤ n ∧ (wordBound - bytesHead ≤ n ∨ hasRoom n.toNat = false)

theorem toBytes_whole {n : Int} (hn : whole? v = some n) : toBytes hasRoom v =
    if !fitsWord n then .error (.overflow "cannot fit 'int' into an index-sized integer")
    else if n < 0 then .error (.badValue "negative count")
    else if wordBound - bytesHead ≤ n then .error (.overflow "byte string is too large")
    else if !hasRoom n.toNat then .error .noMemory
    else .ok (List.replicate n.toNat 0) := by
  cases v with
  | bool _ | int _ =>
    obtain rfl := Option.some.inj hn
    rfl
  | _ => cases hn

theorem settles_zeros {n : Int} (h : ¬TooMany hasRoom n) (hn : whole? v = some n) :
    Settles (toBytes hasRoom v) := by
  simp only [TooMany, not_or, not_and, Bool.not_eq_false] at h
  obtain ⟨hfits, hroom⟩ := h
  rw [toBytes_whole hn, hfits, if_neg (by decide)]
  split
  · exact settles_badValue _
  · next hpos =>
    obtain ⟨hhead, hfree⟩ := hroom (Int.not_lt.1 hpos)
    rw [if_neg hhead, hfree, if_neg (by decide)]
    exact settles_ok _

theorem fails_zeros {n : Int} (h : TooMany hasRoom n) (hn : whole? v = some n) :
    Fails (toBytes hasRoom v) := by
  rw [toBytes_whole hn]
  cases hfits : fitsWord n with
  | false => exact fails_overflow _
  | true =>
    obtain ⟨hpos, hlarge⟩ := h.resolve_left (by simp [hfits])
    rw [if_neg (by decide), if_neg (Int.not_lt.2 hpos)]
    split
    · exact fails_overflow _
    · next hhead =>
      rw [hlarge.resolve_left hhead, if_pos (by decide)]
      exact fails_noMemory

theorem settles_toBytes {d : Json}
    (h : ∀ n, whole? (Format.ofDocument d) = some n → ¬TooMany hasRoom n) :
    Settles (toBytes hasRoom (Format.ofDocument d)) := by
  cases d with
  | bool b => exact settles_zeros (h _ rfl) rfl
  | int n => exact settles_zeros (h _ rfl) rfl
  | array items => exact settles_bytes _
  | object fields => exact settles_bytes _
  | null | float _ | text _ | torn _ => exact settles_badType _

theorem fails_toBinary64 {n : Int} (hn : whole? v = some n) (h : Binary64.ofInt? n = none) :
    Fails (toBinary64 v) := by
  have hdouble : toBinary64 v = .error (.overflow "int too large to convert to float") := by
    cases v with
    | bool _ | int _ =>
      obtain rfl := Option.some.inj hn
      simp only [toBinary64, whole?, h]
    | _ => cases hn
  rw [hdouble]
  exact fails_overflow _

/-! ## Durations -/

/-- Only of what is no number of days at all there is more to say than that it is too large. -/
theorem ofMicros_ne_nan (n : Int) : Duration.ofMicros n ≠ .error .nan := by
  unfold Duration.ofMicros
  split
  · exact nofun
  · dsimp only
    split <;> exact nofun

theorem ofDays_ne_nan {x : Binary64} (h : x ≠ .nan) : Duration.ofDays x ≠ .error .nan := by
  cases x with
  | nan => exact absurd rfl h
  | infinite s => exact nofun
  | finite s m e => exact ofMicros_ne_nan _

theorem settles_durationOutcome {x : Except DurationFault Duration}
    (h : x = .error .nan ∨ ∃ d, x = .ok d) : Settles (durationOutcome x) := by
  rcases h with rfl | ⟨d, rfl⟩
  · exact settles_badValue _
  · exact settles_ok d

theorem fails_durationOutcome {x : Except DurationFault Duration} (hx : x ≠ .error .nan)
    (h : ∀ d, x ≠ .ok d) : Fails (durationOutcome x) := by
  rcases x with f | d
  · cases f with
    | nan => exact absurd rfl hx
    | days _ | huge | infinite => exact fails_overflow _
  · exact absurd rfl (h d)

theorem toDuration_whole {n : Int} (hn : whole? v = some n) :
    toDuration v = durationOutcome (Duration.ofWholeDays n) := by
  cases v with
  | bool _ | int _ =>
    obtain rfl := Option.some.inj hn
    rfl
  | _ => cases hn

theorem settles_toDuration {d : Json}
    (hwhole : ∀ n, whole? (Format.ofDocument d) = some n → ∃ x, Duration.ofWholeDays n = .ok x)
    (hfloat : ∀ x, d = .float x → x = .nan ∨ ∃ y, Duration.ofDays x = .ok y) :
    Settles (toDuration (Format.ofDocument d)) := by
  cases d with
  | bool b => exact settles_durationOutcome (.inr (hwhole _ rfl))
  | int n => exact settles_durationOutcome (.inr (hwhole n rfl))
  | float x =>
    refine settles_durationOutcome ?_
    rcases hfloat x rfl with rfl | hx
    · exact .inl rfl
    · exact .inr hx
  | null | text _ | torn _ | array _ | object _ => exact settles_badType _

/-! ## Values that cannot be written -/

/-- Lists and objects. -/
def hasParts : Value → Bool
  | .list _ | .object _ => true
  | _ => false

theorem isShort_of_fitsWord {n : Int} (h : fitsWord n = true) : Reading.isShort n = true := by
  simp only [fitsWord, Bool.and_eq_true, decide_eq_true_eq] at h
  exact Reading.isShort_of_inStore h.1 (Int.le_of_lt h.2)

theorem fitsWord_of_word {kind : String} {n k : Int} (h : word kind n = .ok k) :
    fitsWord n = true := by
  unfold word at h
  split at h
  · assumption
  · cases h

/-- A whole number that is taken as a machine word can be written. -/
theorem isShort_of_word {n k : Int} {kind : String} (hn : whole? v = some n)
    (h : word kind n = .ok k) : v.isShort = true := by
  have hshort := isShort_of_fitsWord (fitsWord_of_word h)
  cases v with
  | int m =>
    obtain rfl := Option.some.inj hn
    exact hshort
  | bool b => rfl
  | _ => cases hn

theorem isShort_of_signOf {b : Bool} (h : signOf v = .ok b) : v.isShort = true := by
  unfold signOf at h
  split at h
  · next n hn =>
    obtain ⟨k, hk, -⟩ := bind_eq_ok.1 h
    exact isShort_of_word hn hk
  · cases h

theorem isShort_of_digitOf {d : Nat} (h : digitOf v = .ok d) : v.isShort = true := by
  unfold digitOf at h
  split at h
  · next n hn =>
    obtain ⟨k, hk, -⟩ := bind_eq_ok.1 h
    exact isShort_of_word hn hk
  · cases h

theorem isShort_of_byteOf {x : UInt8} (h : byteOf v = .ok x) : v.isShort = true := by
  unfold byteOf at h
  split at h
  · next n hn =>
    split at h
    · next hrange =>
      have hfits : fitsWord n = true := by
        refine Bool.and_eq_true_iff.2 ⟨decide_eq_true ?_, decide_eq_true ?_⟩
        all_goals
          unfold wordBound
          omega
      have hword : word "long" n = .ok n := word_eq_ok hfits
      exact isShort_of_word hn hword
    · cases h
  · cases h

theorem areShort_iff {vs : List Value} :
    Value.areShort vs = true ↔ ∀ v ∈ vs, v.isShort = true := by
  induction vs with
  | nil => simp [Value.areShort]
  | cons v vs ih => simp [Value.areShort, ih]

/-- Items that are all taken one by one can be written. -/
theorem areShort_of_mapM {vs : List Value} {g : Value → Except Fault α} {xs : List α}
    (hg : ∀ {v a}, g v = .ok a → v.isShort = true) (h : vs.mapM g = .ok xs) :
    Value.areShort vs = true :=
  areShort_iff.2 fun _ hv =>
    let ⟨_, _, hx⟩ := exists_of_forall₂_left (mapM_eq_ok.1 h) hv
    hg hx

theorem isShort_of_digitsOf {ds : List Nat} (h : digitsOf v = .ok ds) : v.isShort = true := by
  cases v with
  | list vs => exact areShort_of_mapM isShort_of_digitOf h
  | _ => cases h

theorem isShort_of_decimalOfParts {s ds e : Value} {d : Decimal}
    (h : decimalOfParts s ds e = .ok d) : (Value.list [s, ds, e]).isShort = true := by
  obtain ⟨b, hb, h⟩ := bind_eq_ok.1 h
  have hall : ds.isShort = true → e.isShort = true → (Value.list [s, ds, e]).isShort = true :=
    fun hds he => areShort_iff.2 (by simp [isShort_of_signOf hb, hds, he])
  split at h
  · obtain ⟨_, hds, -⟩ := map_eq_ok.1 h
    exact hall (isShort_of_digitsOf hds) rfl
  · obtain ⟨_, hds, -⟩ := map_eq_ok.1 h
    exact hall (isShort_of_digitsOf hds) rfl
  · obtain ⟨_, hds, -⟩ := map_eq_ok.1 h
    exact hall (isShort_of_digitsOf hds) rfl
  · cases h
  · cases h
  · split at h
    · next n hn =>
      obtain ⟨k, hk, h⟩ := bind_eq_ok.1 h
      obtain ⟨_, hds, -⟩ := bind_eq_ok.1 h
      exact hall (isShort_of_digitsOf hds) (isShort_of_word hn hk)
    · cases h

/-- A list or an object that cannot be written is no decimal. -/
theorem refuses_toDecimal (hparts : hasParts v = true) (hlong : v.isShort = false) :
    Fails (toDecimal v) ∨ Refuses (toDecimal v) := by
  cases v with
  | list vs =>
    match vs with
    | [s, ds, e] =>
      by_cases hbreak : PartsBreak s ds e
      · exact .inl (fails_decimalOfParts hbreak)
      · refine .inr ((settles_decimalOfParts hbreak).refuses fun d hd => ?_)
        exact absurd (isShort_of_decimalOfParts hd) (by simp [hlong])
    | [] | [_] | [_, _] | _ :: _ :: _ :: _ :: _ => exact .inr ⟨_, .inl rfl⟩
  | object fs => exact .inr ⟨_, .inr rfl⟩
  | _ => cases hparts

/-- A list or an object that cannot be written has no bytes. -/
theorem refuses_toBytes (hparts : hasParts v = true) (hlong : v.isShort = false) :
    Refuses (toBytes hasRoom v) := by
  cases v with
  | list vs =>
    refine (settles_bytes vs).refuses fun b hb => ?_
    have hshort : (Value.list vs).isShort = true := areShort_of_mapM isShort_of_byteOf hb
    exact absurd hshort (by simp [hlong])
  | object fs =>
    refine (settles_bytes _).refuses fun b hb => ?_
    cases fs with
    | nil => cases hlong
    | cons f fs =>
      rw [List.map_cons, List.mapM_cons] at hb
      obtain ⟨x, hx, -⟩ := bind_eq_ok.1 hb
      cases hx
  | _ => cases hparts

end Conversion

end Hypermedia
