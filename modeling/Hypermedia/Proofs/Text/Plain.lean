import Hypermedia.Api.Request
import Hypermedia.Proofs.Number.Spelled
import Hypermedia.Text.Uri
import Mathlib.Data.List.TakeWhile

/-!
# Addresses without escapes

A path of characters that need no escape (`Text.isPathChar`) is sent as it is
(`Text.uriText_eq_self`), and a request to what was sent asks for this very path
(`Request.path_ofAddress`).
-/

namespace Hypermedia

namespace Text

/-- The character stands for itself in a path: it is not escaped, and begins no escape, no query
and nothing that is not sent. -/
def isPathChar (c : Char) : Bool := isAddressChar c && c != '%' && c != '?' && c != '#'

theorem isPathChar_iff {c : Char} :
    isPathChar c = true ↔ isAddressChar c = true ∧ c ≠ '%' ∧ c ≠ '?' ∧ c ≠ '#' := by
  simp [isPathChar, and_assoc]

theorem toNat_lt_of_isAddressChar {c : Char} (h : isAddressChar c = true) : c.toNat < 128 := by
  simp only [isAddressChar, Bool.and_eq_true, decide_eq_true_eq] at h
  exact h.1

theorem isPathChar_of_isDigit {c : Char} (h : c.isDigit = true) : isPathChar c = true := by
  have hrange := Reading.isDigit_range h
  refine isPathChar_iff.2 ⟨?_, ?_, ?_, ?_⟩
  · have hlow : c.toNat < 128 := by omega
    simp [isAddressChar, hlow, Char.isAlphanum, h]
  all_goals
    rintro rfl
    revert hrange
    decide

/-! ## Sending -/

/-- A text without characters that may not stand in an address is not escaped. -/
theorem percentEncode_eq_self {s : String} (h : ∀ c ∈ s.toList, isAddressChar c = true) :
    percentEncode s = s := by
  have hchars : ∀ r : List Char, (∀ c ∈ r, isAddressChar c = true) → r.flatMap addressChar = r := by
    intro r
    induction r with
    | nil => exact fun _ => rfl
    | cons c r ih =>
      intro h
      rw [List.flatMap_cons, addressChar, if_pos (h c List.mem_cons_self),
        ih fun d hd => h d (List.mem_cons_of_mem _ hd)]
      rfl
  rw [percentEncode, hchars _ h, String.ofList_toList]

/-- A path has no scheme, so no part of it is read as a host. -/
theorem splitUri?_slash (r : List Char) : splitUri? ('/' :: r) = none := by
  have hscheme : isSchemeChar '/' = false := by decide
  simp [splitUri?, hscheme]

/-- A path that needs no escapes is sent as it is. -/
theorem uriText_eq_self {s : String} {r : List Char} (hs : s.toList = '/' :: r)
    (h : ∀ c ∈ s.toList, isAddressChar c = true) : uriText s = s := by
  rw [uriText, hs, splitUri?_slash]
  exact percentEncode_eq_self h

/-! ## Reading -/

/-- A text without escapes is read as it is. -/
theorem percentDecode_eq_self {s : List Char} (h : ∀ c ∈ s, c.toNat < 128 ∧ c ≠ '%') :
    percentDecode s = s := by
  unfold percentDecode decodeUtf8
  induction s with
  | nil => rfl
  | cons c r ih =>
    obtain ⟨hascii, hescape⟩ := h c List.mem_cons_self
    have hbytes : percentBytes (c :: r) = UInt8.ofNat c.toNat :: percentBytes r := by
      rw [percentBytes]
      · simp [encodeUtf8, hascii]
      · rintro a b r' rfl
        exact absurd rfl hescape
    have hbyte : (UInt8.ofNat c.toNat).toNat = c.toNat := by
      rw [UInt8.toNat_ofNat']
      omega
    rw [hbytes, decodeFrom]
    simp only [Option.elim_none, hbyte, startChar, hascii, if_true, Char.ofNat_toNat,
      ih fun d hd => h d (List.mem_cons_of_mem _ hd), List.singleton_append]

end Text

namespace Request

theorem cut_of_notMem {separator : Char} {s : List Char} (h : separator ∉ s) :
    cut separator s = (s, []) := by
  have hne : ∀ c ∈ s, (c != separator) = true := by
    intro c hc
    rw [bne_iff_ne]
    rintro rfl
    exact h hc
  rw [cut, List.takeWhile_eq_self_iff.2 hne, List.dropWhile_eq_nil_iff.2 hne]
  rfl

/-- Methods are named in capitals. -/
theorem method_ofAddress (method address body : String) :
    (ofAddress method address body).method = String.ofList (method.toList.map Char.toUpper) := rfl

/-- A request to a path without escapes asks for this path. -/
theorem path_ofAddress {method address body : String} {a : Char} {r : List Char}
    (haddress : address.toList = '/' :: a :: r) (ha : a ≠ '/')
    (h : ∀ c ∈ address.toList, Text.isPathChar c = true) :
    (ofAddress method address body).path = address.toList := by
  have hchar : ∀ {c : Char}, Text.isPathChar c = false → c ∉ address.toList :=
    fun hno hc => by simp [h _ hc] at hno
  have hpath : cut '?' (cut '#' address.toList).1 = (address.toList, []) := by
    rw [cut_of_notMem (hchar (c := '#') (by decide)),
      cut_of_notMem (hchar (c := '?') (by decide))]
  have hdecode : Text.percentDecode address.toList = address.toList :=
    Text.percentDecode_eq_self fun c hc => by
      obtain ⟨haddress, hescape, -⟩ := Text.isPathChar_iff.1 (h c hc)
      exact ⟨Text.toNat_lt_of_isAddressChar haddress, hescape⟩
  have hrooted : rooted address.toList = address.toList := by
    simp [rooted, haddress, ha]
  rw [ofAddress, hpath]
  exact (congrArg rooted hdecode).trans hrooted

end Request

end Hypermedia
