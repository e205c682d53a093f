import Hypermedia.Proofs.Format.Links

/-!
# Marks of pages

What is written for a text in a page is a list of marks: tags of links, references for the
characters with a meaning there, and characters without one (`Mark`). Each part of the text has
its marks; those of an address are two tags around the marks of its characters (`Piece.marks`).
So nothing of a text is lost in a page, and no character of it keeps a meaning there: wherever
such a character stands, it belongs to a tag of a link or to a reference (`linkUrls_marks`).
-/

namespace Hypermedia

namespace Text

/-- Has the character a meaning in markup? -/
def isMarkup (c : Char) : Bool := "&<>\"".toList.contains c || c == Char.ofNat 39

/-- The references for characters with a meaning. -/
def references : List (List Char) :=
  ["&amp;".toList, "&lt;".toList, "&gt;".toList, "&#34;".toList, "&#39;".toList]

/-- A character with a meaning is written as a reference, every other one as it is. -/
theorem escapeChar_eq (c : Char) :
    isMarkup c = true ∧ escapeChar c ∈ references ∨ isMarkup c = false ∧ escapeChar c = [c] := by
  by_cases hc : isMarkup c = true
  · refine Or.inl ⟨hc, ?_⟩
    simp only [isMarkup, Bool.or_eq_true, List.contains_iff_mem, beq_iff_eq] at hc
    rcases hc with hc | rfl
    · obtain rfl | rfl | rfl | rfl : c = '&' ∨ c = '<' ∨ c = '>' ∨ c = '"' := by simpa using hc
      · decide
      · decide
      · decide
      · decide
    · decide
  · have hplain := hc
    simp only [isMarkup, Bool.or_eq_true, List.contains_iff_mem, beq_iff_eq, not_or] at hplain
    refine Or.inr ⟨by simpa using hc, ?_⟩
    simp_all [escapeChar]

end Text

/-- A member of the lists that are strung together reaches from one of them. -/
theorem exists_of_flatMap_eq {α β : Type} {f : α → List β} {xs : List α} {before after : List β}
    {c : β} (h : xs.flatMap f = before ++ c :: after) : ∃ pre x post u v, xs = pre ++ x :: post ∧
      before = pre.flatMap f ++ u ∧ f x = u ++ c :: v ∧ after = v ++ post.flatMap f := by
  induction xs generalizing before with
  | nil => simp at h
  | cons x xs ih =>
    rw [List.flatMap_cons, List.append_eq_append_iff] at h
    have hlater : ∀ rest, before = f x ++ rest → xs.flatMap f = rest ++ c :: after →
        ∃ pre y post u v, x :: xs = pre ++ y :: post ∧
          before = pre.flatMap f ++ u ∧ f y = u ++ c :: v ∧ after = v ++ post.flatMap f := by
      rintro rest rfl hrest
      obtain ⟨pre, y, post, u, v, rfl, rfl, hy, rfl⟩ := ih hrest
      exact ⟨x :: pre, y, post, u, v, rfl, by simp, hy, rfl⟩
    rcases h with ⟨rest, hbefore, hrest⟩ | ⟨rest, hx, hrest⟩
    · exact hlater rest hbefore hrest
    · cases rest with
      | nil => exact hlater [] (by simpa using hx.symm) (by simpa using hrest.symm)
      | cons d v =>
        obtain ⟨rfl, rfl⟩ := List.cons.inj hrest
        exact ⟨[], x, xs, before, v, rfl, rfl, hx, rfl⟩

namespace Format

open Text

/-- A part of what is written in a page. -/
inductive Mark where
  | plain (c : Char)
  | reference (s : List Char)
  | opening (address : List Char)
  | closing

namespace Mark

/-- How a mark is written. The address in a tag is escaped. -/
def chars : Mark → List Char
  | .plain c => [c]
  | .reference s => s
  | .opening s => "<a href=\"".toList ++ escapeChars s ++ "\">".toList
  | .closing => "</a>".toList

@[simp] theorem chars_plain (c : Char) : (plain c).chars = [c] := rfl

@[simp] theorem chars_reference (s : List Char) : (reference s).chars = s := rfl

/-- A mark with a meaning in the page: a tag of a link, or one of the references. -/
def HasMeaning : Mark → Prop
  | .plain _ => False
  | .reference s => s ∈ references
  | .opening _ => True
  | .closing => True

/-- The mark for a character of a text. -/
def ofChar (c : Char) : Mark := if isMarkup c then .reference (escapeChar c) else .plain c

theorem chars_ofChar (c : Char) : (ofChar c).chars = escapeChar c := by
  unfold ofChar
  rcases escapeChar_eq c with ⟨hc, -⟩ | ⟨hc, hplain⟩
  · rw [if_pos hc, chars_reference]
  · rw [if_neg (by simp [hc]), chars_plain, hplain]

/-- A mark of a character that holds a character with a meaning is a reference. -/
theorem hasMeaning_ofChar {c d : Char} (h : d ∈ (ofChar c).chars) (hd : isMarkup d = true) :
    (ofChar c).HasMeaning := by
  unfold ofChar at h ⊢
  rcases escapeChar_eq c with ⟨hc, href⟩ | ⟨hc, -⟩
  · rw [if_pos hc]
    exact href
  · rw [if_neg (by simp [hc])] at h
    rw [List.mem_singleton.1 h, hc] at hd
    cases hd

end Mark

/-- The marks for a part of a text. -/
def Piece.marks : Piece → List Mark
  | .char c => [.ofChar c]
  | .address s => .opening s :: (s.map .ofChar ++ [.closing])

theorem Piece.flatMap_marks (p : Piece) : p.marks.flatMap Mark.chars = p.markup := by
  cases p with
  | char c => rw [marks, markup, List.flatMap_singleton, Mark.chars_ofChar]
  | address s =>
    have hchars : (s.map Mark.ofChar).flatMap Mark.chars = escapeChars s := by
      rw [List.flatMap_map, escapeChars]
      simp only [Mark.chars_ofChar]
    rw [marks, markup, List.flatMap_cons, List.flatMap_append, hchars, List.flatMap_singleton]
    exact (List.append_assoc _ _ _).symm

/-- Only marks with a meaning hold characters with a meaning. -/
theorem Piece.hasMeaning {p : Piece} {m : Mark} (hm : m ∈ p.marks) {c : Char} (hc : c ∈ m.chars)
    (hmarkup : isMarkup c = true) : m.HasMeaning := by
  cases p with
  | char d =>
    obtain rfl := List.mem_singleton.1 hm
    exact Mark.hasMeaning_ofChar hc hmarkup
  | address s =>
    simp only [marks, List.mem_cons, List.mem_append, List.mem_map, List.not_mem_nil,
      or_false] at hm
    rcases hm with rfl | ⟨d, -, rfl⟩ | rfl
    · trivial
    · exact Mark.hasMeaning_ofChar hc hmarkup
    · trivial

/-- The addresses of a text are not empty. -/
theorem ne_nil_of_mem_cut {before : Option Char} {s address : List Char}
    (h : Piece.address address ∈ cut before s) : address ≠ [] := by
  fun_induction cut before s with
  | case1 => cases h
  | case2 before c r n _ ih =>
    rcases List.mem_cons.1 h with h | h
    · cases h
      simp
    · exact ih h
  | case3 before c r _ ih =>
    rcases List.mem_cons.1 h with h | h
    · cases h
    · exact ih h

/-- A page shows a text in parts, some of them not empty and with a link: what is written is the
escaped text with these parts in links to themselves. Without its tags and with the references
decoded it is the text again, and wherever a character with a meaning stands in it, it belongs
to a tag of one of the links or to a reference. -/
theorem linkUrls_marks (t : String) : ∃ ps : List Piece,
    ps.flatMap Piece.chars = t.toList ∧ (∀ s, Piece.address s ∈ ps → s ≠ []) ∧
    (linkUrls t).toList = ps.flatMap Piece.markup ∧
    unescapeChars (untag false (linkUrls t).toList) = t.toList ∧
    (linkUrls t).toList = (ps.flatMap Piece.marks).flatMap Mark.chars ∧
    ∀ before c after, (linkUrls t).toList = before ++ c :: after → isMarkup c = true →
      ∃ pre m post u v, ps.flatMap Piece.marks = pre ++ m :: post ∧ m.HasMeaning ∧
        before = pre.flatMap Mark.chars ++ u ∧ m.chars = u ++ c :: v ∧
          after = v ++ post.flatMap Mark.chars := by
  have hchars : (linkUrls t).toList = linkChars t.toList := String.toList_ofList
  have hmarks : linkChars t.toList =
      ((cut none t.toList).flatMap Piece.marks).flatMap Mark.chars := by
    simp only [linkChars, List.flatMap_assoc, Piece.flatMap_marks]
  refine ⟨cut none t.toList, flatMap_chars_cut none t.toList, fun s => ne_nil_of_mem_cut, hchars,
    ?_, hchars.trans hmarks, fun before c after hsplit hc => ?_⟩
  · rw [hchars]
    exact unescapeChars_untag_linkChars t.toList
  · obtain ⟨pre, m, post, u, v, hps, hbefore, hm, hafter⟩ :=
      exists_of_flatMap_eq (hmarks.symm.trans (hchars.symm.trans hsplit))
    obtain ⟨p, -, hmem⟩ := List.mem_flatMap.1 (hps ▸ List.mem_append_right pre List.mem_cons_self)
    exact ⟨pre, m, post, u, v, hps, p.hasMeaning hmem (hm ▸ by simp) hc, hbefore, hm, hafter⟩

end Format

end Hypermedia
