import Hypermedia.Proofs.Calendar.Dates
import Hypermedia.Proofs.Format.Doubles
import Hypermedia.Proofs.Format.Identifiers
import Hypermedia.Proofs.Number.Exact

/-!
# Values that are sent back

A client sends a value back if it gives a column what it was shown of the column's value
(`ColumnType.sentBack`). An identifier comes back as it is, and a decimal as the nearest double,
which is equal to it only where some double has its value (`ColumnType.sentBack_uuid_numeric`).
Bytes and durations are shown as texts and such columns take no texts, so none of them comes back
(`ColumnType.sentBack_bytes`, `ColumnType.sentBack_duration`).
-/

namespace Hypermedia

/-! ## Texts without escapes -/

/-- Every character of the text stands for itself in a string. -/
def IsPlainText (s : String) : Prop := ∀ c ∈ s.toList, Json.isPlainChar c = true

instance (s : String) : Decidable (IsPlainText s) :=
  decidable_of_iff (s.toList.all Json.isPlainChar = true) List.all_eq_true

theorem IsPlainText.append {s t : String} (hs : IsPlainText s) (ht : IsPlainText t) :
    IsPlainText (s ++ t) := by
  intro c hc
  rw [String.toList_append, List.mem_append] at hc
  exact hc.elim (hs c) (ht c)

theorem Json.isPlainChar_of_isDigit {c : Char} (h : c.isDigit = true) : isPlainChar c = true := by
  have hrange := Reading.isDigit_range h
  refine isPlainChar_iff.2 ⟨by omega, by omega, ?_, ?_⟩ <;>
    · rintro rfl
      exact absurd h (by decide)

theorem isPlainText_padded (width n : ℕ) : IsPlainText (padded width n) :=
  fun _ hc => Json.isPlainChar_of_isDigit (isDigit_of_mem_padded hc)

theorem isPlainText_toString_int (n : ℤ) : IsPlainText (toString n) := by
  intro c hc
  rw [toList_toString_int, List.mem_append] at hc
  rcases hc with hc | hc
  · unfold Reading.minus at hc
    split at hc
    · rw [List.mem_singleton.1 hc]
      decide
    · cases hc
  · exact Json.isPlainChar_of_isDigit (Nat.isDigit_of_mem_toDigits (by decide) (by decide) hc)

theorem isPlainText_toString_nat (n : ℕ) : IsPlainText (toString n) :=
  isPlainText_toString_int n

theorem Duration.isPlainText_text (d : Duration) : IsPlainText d.text := by
  have hhead : IsPlainText (if d.days = 0 then ""
      else toString d.days ++ (if d.days.natAbs = 1 then " day, " else " days, ")) := by
    split
    · exact nofun
    · refine (isPlainText_toString_int _).append ?_
      split <;> decide
  have htail : IsPlainText (if d.micro = 0 then "" else "." ++ padded 6 d.micro) := by
    split
    · exact nofun
    · exact IsPlainText.append (by decide) (isPlainText_padded 6 d.micro)
  have hmark : IsPlainText ":" := by decide
  exact ((((hhead.append (isPlainText_toString_nat _)).append hmark).append
    (isPlainText_padded 2 _)).append hmark).append (isPlainText_padded 2 _) |>.append htail

theorem isPlainText_hexText (b : List UInt8) : IsPlainText (Format.hexText b) := by
  intro c hc
  rw [Format.hexText, String.toList_ofList] at hc
  obtain ⟨x, -, hx⟩ := List.mem_flatMap.1 hc
  exact (Text.isHexChar_of_mem_hexDigits hx).isPlainChar

/-! ## What comes back -/

namespace ColumnType

/-- What the column makes of the document that shows the value, after the document was written out
and read; nothing if there is no document or it is not read. -/
def sentBack (type : ColumnType) (hasRoom : Nat → Bool) (detail : Detail) (name : String)
    (v : Value) : Option (Except Fault Value) := do
  let body ← (Format.compact detail v).toOption
  let document ← Json.read? body
  return type.parse hasRoom name (Format.ofDocument document)

variable {type : ColumnType} {v : Value} (hasRoom : Nat → Bool) (detail : Detail) (name : String)

theorem sentBack_eq {d d' : Json} (hd : Format.document detail v = .ok d)
    (hread : Json.read? d.compact = some d') :
    type.sentBack hasRoom detail name v =
      some (type.parse hasRoom name (Format.ofDocument d')) := by
  have hbody : Format.compact detail v = .ok d.compact := by
    rw [Format.compact, hd]
    rfl
  simp only [sentBack, hbody, Except.toOption, Option.bind_eq_bind, Option.bind_some, hread]
  rfl

theorem sentBack_of_text {s : String} (hs : Format.document detail v = .ok (.text s))
    (hplain : IsPlainText s) :
    type.sentBack hasRoom detail name v = some (type.parse hasRoom name (.text s)) :=
  sentBack_eq hasRoom detail name hs (Json.read?_stringText hplain)

theorem sentBack_uuid (u : Uuid) :
    uuid.sentBack hasRoom detail name (.uuid u) = some (.ok (.uuid u)) := by
  have hconvert : uuid.convert hasRoom (.text u.text) = .ok (.uuid u) := by
    rw [convert, Conversion.toUuid_text]
    rfl
  rw [sentBack_of_text hasRoom detail name rfl fun _ => u.isPlainChar_of_mem_text, parse,
    if_neg (by simp [Value.isNull, holds]), hconvert]

/-- A decimal comes back as the double that it is rounded to. -/
theorem sentBack_decimal (s : Bool) (c : ℕ) (e : ℤ) :
    numeric.sentBack hasRoom detail name (.decimal (.finite s c e)) =
      some (.ok (.decimal (.ofBinary64 (.ofDecimal s c e)))) := by
  have hdocument : Format.document detail (.decimal (.finite s c e)) =
      .ok (.float (.ofDecimal s c e)) := by
    rw [Format.document, Decimal.toBinary64?]
  have hread : Json.read? (Json.float (.ofDecimal s c e)).compact =
      some (.float (.ofDecimal s c e)) := by
    simp only [Json.compact, Json.leafText]
    exact Json.read?_float (Binary64.isProper_ofDecimal s c e)
  rw [sentBack_eq hasRoom detail name hdocument hread]
  rfl

/-- Identifiers come back as they are. A finite decimal comes back as the decimal with the value of
the double that it is rounded to, and so unchanged exactly if its value is that of some double. -/
theorem sentBack_uuid_numeric (hasRoom : Nat → Bool) (detail : Detail) (name : String) :
    (∀ u, uuid.sentBack hasRoom detail name (.uuid u) = some (.ok (.uuid u))) ∧
    ∀ s c e, ∃ w : Decimal, numeric.sentBack hasRoom detail name (.decimal (.finite s c e)) =
        some (.ok (.decimal w)) ∧ w = .ofBinary64 (.ofDecimal s c e) ∧
      (w.numEq (.finite s c e) = true ↔
        ∃ x : Binary64, x.IsProper ∧ (Decimal.ofBinary64 x).numEq (.finite s c e) = true) :=
  ⟨sentBack_uuid hasRoom detail name, fun s c e =>
    ⟨_, sentBack_decimal hasRoom detail name s c e, rfl, Decimal.numEq_rounded_iff⟩⟩

/-- A tenth does not come back as a tenth. -/
theorem sentBack_tenth_ne : ¬∃ w : Decimal,
    numeric.sentBack (fun _ => true) .brief "price" (.decimal (.finite false 1 (-1))) =
        some (.ok (.decimal w)) ∧
      w.numEq (.finite false 1 (-1)) = true := by
  rintro ⟨w, hw, heq⟩
  rw [sentBack_decimal] at hw
  obtain rfl : Decimal.ofBinary64 (.ofDecimal false 1 (-1)) = w := by simpa using hw
  exact absurd heq (by decide +kernel)

/-- Bytes are shown by their digits, and the column refuses these. -/
theorem sentBack_bytes (b : List UInt8) :
    ∃ text, binary.sentBack hasRoom detail name (.bytes b) = some (.error (.invalid text)) :=
  ⟨_, sentBack_of_text hasRoom detail name rfl (isPlainText_hexText b)⟩

/-- Durations are shown by clock times, and the column refuses these. -/
theorem sentBack_duration (d : Duration) :
    ∃ text, interval.sentBack hasRoom detail name (.duration d) = some (.error (.invalid text)) :=
  ⟨_, sentBack_of_text hasRoom detail name rfl d.isPlainText_text⟩

end ColumnType

end Hypermedia
