import Hypermedia.Format.Link

/-!
# Texts of pages

A page shows a text without loss: without its tags, and with the references for characters
decoded, what is written for a text is the text again (`unescapeChars_untag_linkChars`). So two
texts that are written alike are equal (`linkUrls_inj`).
-/

namespace Hypermedia

namespace Text

/-- A character is one of the five that are escaped, or it stands for itself. -/
theorem escapeChar_cases {P : Char → List Char → Prop} (ampersand : P '&' "&amp;".toList)
    (less : P '<' "&lt;".toList) (greater : P '>' "&gt;".toList) (quote : P '"' "&#34;".toList)
    (apostrophe : P (Char.ofNat 39) "&#39;".toList)
    (plain : ∀ c, c ≠ '&' → c ≠ '<' → c ≠ '>' → P c [c]) (c : Char) : P c (escapeChar c) := by
  unfold escapeChar
  split
  · next h => exact eq_of_beq h ▸ ampersand
  split
  · next h => exact eq_of_beq h ▸ less
  split
  · next h => exact eq_of_beq h ▸ greater
  split
  · next h => exact eq_of_beq h ▸ quote
  split
  · next h => exact eq_of_beq h ▸ apostrophe
  · next h1 h2 h3 _ _ => exact plain c (by simpa using h1) (by simpa using h2) (by simpa using h3)

theorem unescapeChars_cons {c : Char} (h : c ≠ '&') (r : List Char) :
    unescapeChars (c :: r) = c :: unescapeChars r := by
  rw [unescapeChars] <;> simp_all

/-- Decoding undoes escaping, one character after the other. -/
theorem unescapeChars_escapeChars (s : List Char) : unescapeChars (escapeChars s) = s := by
  induction s with
  | nil => rfl
  | cons c s ih =>
    have hone : unescapeChars (escapeChar c ++ escapeChars s) =
        c :: unescapeChars (escapeChars s) :=
      escapeChar_cases (P := fun c t => unescapeChars (t ++ escapeChars s) =
        c :: unescapeChars (escapeChars s)) rfl rfl rfl rfl rfl
        (fun c h _ _ => unescapeChars_cons h _) c
    rw [escapeChars, List.flatMap_cons]
    exact hone.trans (congrArg _ ih)

/-- No angle bracket is left in an escaped text. -/
theorem ne_bracket_of_mem_escapeChars {s : List Char} {x : Char} (h : x ∈ escapeChars s) :
    x ≠ '<' ∧ x ≠ '>' := by
  obtain ⟨c, -, hx⟩ := List.mem_flatMap.1 h
  revert hx
  refine escapeChar_cases (P := fun _ t => x ∈ t → x ≠ '<' ∧ x ≠ '>')
    ?_ ?_ ?_ ?_ ?_ (fun c _ hless hgreater hx => ?_) c
  case refine_6 =>
    rw [List.mem_singleton.1 hx]
    exact ⟨hless, hgreater⟩
  all_goals
    clear h
    revert x
    simp

/-- A text without its tags; at its start a tag may be open. -/
def untag : (isOpen : Bool) → List Char → List Char
  | _, [] => []
  | true, c :: r => untag (c != '>') r
  | false, c :: r => if c == '<' then untag true r else c :: untag false r

theorem untag_append {s : List Char} (h : ∀ c ∈ s, c ≠ '<') (r : List Char) :
    untag false (s ++ r) = s ++ untag false r := by
  induction s with
  | nil => rfl
  | cons c s ih =>
    have hc : (c == '<') = false := by simpa using h c List.mem_cons_self
    simp [untag, hc, ih fun x hx => h x (List.mem_cons_of_mem _ hx)]

theorem untag_tag {s : List Char} (h : ∀ c ∈ s, c ≠ '>') (r : List Char) :
    untag false ('<' :: (s ++ '>' :: r)) = untag false r := by
  have hinner : untag true (s ++ '>' :: r) = untag false r := by
    induction s with
    | nil => simp [untag]
    | cons c s ih =>
      have hc : (c != '>') = true := by simpa using h c List.mem_cons_self
      simp [untag, hc, ih fun x hx => h x (List.mem_cons_of_mem _ hx)]
  simpa [untag] using hinner

end Text

namespace Format

open Text

/-- The characters of a part of a text. -/
def Piece.chars : Piece → List Char
  | .char c => [c]
  | .address s => s

/-- The parts of a text make up the text. -/
theorem flatMap_chars_cut (before : Option Char) (s : List Char) :
    (cut before s).flatMap Piece.chars = s := by
  fun_induction cut before s with
  | case1 => rfl
  | case2 before c r n _ ih =>
    rw [List.flatMap_cons, ih]
    simp [Piece.chars]
  | case3 before c r _ ih =>
    rw [List.flatMap_cons, ih]
    rfl

/-- What stands before the address in a tag. -/
def tagStart : List Char := ['a', ' ', 'h', 'r', 'e', 'f', '=', '"']

/-- Without tags a part is written as it is escaped. -/
theorem untag_markup (p : Piece) (r : List Char) :
    untag false (p.markup ++ r) = escapeChars p.chars ++ untag false r := by
  have hplain : ∀ (s t : List Char), untag false (escapeChars s ++ t) =
      escapeChars s ++ untag false t := fun s t =>
    untag_append (fun _ hc => (ne_bracket_of_mem_escapeChars hc).1) t
  cases p with
  | char c =>
    have hone : escapeChars [c] = escapeChar c := List.flatMap_singleton escapeChar c
    rw [Piece.markup, ← hone]
    exact hplain [c] r
  | address s =>
    have hopen : ∀ c ∈ tagStart ++ escapeChars s ++ ['"'], c ≠ '>' := by
      intro c hc
      simp only [List.mem_append] at hc
      rcases hc with (hc | hc) | hc
      · revert c
        simp [tagStart]
      · exact (ne_bracket_of_mem_escapeChars hc).2
      · simp_all
    have hclose : ∀ c ∈ ['/', 'a'], c ≠ '>' := by simp
    have hanchor : anchor s ++ r = '<' :: (tagStart ++ escapeChars s ++ ['"'] ++
        '>' :: (escapeChars s ++ '<' :: (['/', 'a'] ++ '>' :: r))) := by
      unfold anchor tagStart
      simp
    change untag false (anchor s ++ r) = _
    rw [hanchor, untag_tag hopen, hplain, untag_tag hclose]
    rfl

/-- Without its tags a text of a page is the text as it is escaped. -/
theorem untag_linkChars (s : List Char) : untag false (linkChars s) = escapeChars s := by
  have hparts : ∀ ps : List Piece, untag false (ps.flatMap Piece.markup) =
      escapeChars (ps.flatMap Piece.chars) := by
    intro ps
    induction ps with
    | nil => rfl
    | cons p ps ih =>
      rw [List.flatMap_cons, untag_markup, ih, List.flatMap_cons]
      exact List.flatMap_append.symm
  rw [linkChars, hparts, flatMap_chars_cut]

/-- Nothing of a text is lost in a page. -/
theorem unescapeChars_untag_linkChars (s : List Char) :
    unescapeChars (untag false (linkChars s)) = s := by
  rw [untag_linkChars, unescapeChars_escapeChars]

/-- Texts that are written alike are equal. -/
theorem linkUrls_inj {s t : String} (h : linkUrls s = linkUrls t) : s = t := by
  have hchars : linkChars s.toList = linkChars t.toList := String.ofList_injective h
  rw [← String.toList_inj, ← unescapeChars_untag_linkChars s.toList, hchars,
    unescapeChars_untag_linkChars]

end Format

end Hypermedia
