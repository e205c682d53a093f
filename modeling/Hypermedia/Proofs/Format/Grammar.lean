import Hypermedia.Proofs.Format.Doubles
import Hypermedia.Proofs.Format.Identifiers

/-!
# The grammar of documents

Which texts are documents, by the rules of RFC 8259: `Json.IsText` relates what a text says, a
`Json.Tree`, with the text. Numbers, strings with their escapes, the marks around items and members
and the blanks between them are as the grammar has them, and a string stands for the characters
that its escapes stand for, so a member of an object is found under its name. An escape may also
stand for half of a character; a text with such escapes is a torn one.

Integers (`Json.isNumber_int`), the texts of doubles (`Json.isNumber_float`) and texts in quotes
(`Json.isString_stringText`, `Json.isTorn_tornText`) are written by these rules.
-/

namespace Hypermedia.Json

/-! ## Rules -/

/-- What a text says. The members of an object keep their order. -/
inductive Tree where
  | null
  | bool (b : Bool)
  | number
  | text (s : String)
  | torn (t : TornText)
  | array (items : List Tree)
  | object (members : List (String × Tree))

/-- Blanks between the parts of a text. -/
def IsSpace (s : List Char) : Prop := ∀ c ∈ s, c ∈ [' ', '\t', '\n', '\r']

/-- One digit or more. -/
structure IsDigits (s : List Char) : Prop where
  ne_nil : s ≠ []
  digits : ∀ c ∈ s, c.isDigit = true

/-- Digits before the point, without a zero before others. -/
inductive IsWhole : List Char → Prop
  | zero : IsWhole ['0']
  | digits {d ds} : d ≠ '0' → IsDigits (d :: ds) → IsWhole (d :: ds)

/-- The point and the digits after it, or nothing. -/
inductive IsFraction : List Char → Prop
  | missing : IsFraction []
  | digits {ds} : IsDigits ds → IsFraction ('.' :: ds)

/-- The exponent with its mark, or nothing. -/
inductive IsExponent : List Char → Prop
  | missing : IsExponent []
  | digits {e sign ds} : e ∈ ['e', 'E'] → sign ∈ [[], ['-'], ['+']] → IsDigits ds →
      IsExponent (e :: (sign ++ ds))

/-- A number. -/
inductive IsNumber : List Char → Prop
  | parts {sign whole fraction exponent} : sign ∈ [[], ['-']] → IsWhole whole →
      IsFraction fraction → IsExponent exponent →
      IsNumber (sign ++ (whole ++ (fraction ++ exponent)))

/-- The characters that are written as a backslash and a letter, and what they stand for. -/
def shortEscapes : List (Char × Char) :=
  [('"', '"'), ('\\', '\\'), ('/', '/'), ('b', Char.ofNat 8), ('f', Char.ofNat 12), ('n', '\n'),
    ('r', '\r'), ('t', '\t')]

/-- Four hexadecimal digits of a number. -/
structure IsUnit (s : List Char) (n : Nat) : Prop where
  length : s.length = 4
  value : ∃ ds, s.mapM Text.hexValue? = some ds ∧ IsHex ds n

/-- A character and how it is written in a string: as it is, by a short escape, by the escape of
its unit, or by the escapes of its two units. -/
inductive IsChar : Char → List Char → Prop
  | plain {c} : 32 ≤ c.toNat → c ≠ '"' → c ≠ '\\' → IsChar c [c]
  | short {e c} : (e, c) ∈ shortEscapes → IsChar c ['\\', e]
  | unit {c s} : IsUnit s c.toNat → IsChar c ('\\' :: 'u' :: s)
  | pair {c s t high low} : IsUnit s (0xd800 + high) → IsUnit t (0xdc00 + low) → high < 0x400 →
      low < 0x400 → c.toNat = 0x10000 + (0x400 * high + low) →
      IsChar c ('\\' :: 'u' :: (s ++ '\\' :: 'u' :: t))

/-- The characters of a text and how they are written in a string. -/
inductive IsChars : List Char → List Char → Prop
  | nil : IsChars [] []
  | cons {c cs s t} : IsChar c s → IsChars cs t → IsChars (c :: cs) (s ++ t)

/-- A text as a string in quotes. -/
inductive IsString : String → List Char → Prop
  | quoted {text s} : IsChars text.toList s → IsString text ('"' :: (s ++ ['"']))

/-- The code points of a text and how they are written in a string, halves of characters by the
escapes of their units. -/
inductive IsPoints : List Nat → List Char → Prop
  | nil : IsPoints [] []
  | char {c ns s t} : IsChar c s → IsPoints ns t → IsPoints (c.toNat :: ns) (s ++ t)
  | half {n ns s t} : Text.isHalf n = true → IsUnit s n → IsPoints ns t →
      IsPoints (n :: ns) ('\\' :: 'u' :: (s ++ t))

/-- A torn text as a string in quotes. -/
inductive IsTorn : TornText → List Char → Prop
  | quoted {t s} : IsPoints t.points s → IsTorn t ('"' :: (s ++ ['"']))

mutual

/-- A value and its text. -/
inductive IsValue : Tree → List Char → Prop
  | null : IsValue .null ['n', 'u', 'l', 'l']
  | false : IsValue (.bool false) ['f', 'a', 'l', 's', 'e']
  | true : IsValue (.bool true) ['t', 'r', 'u', 'e']
  | number {s} : IsNumber s → IsValue .number s
  | text {text s} : IsString text s → IsValue (.text text) s
  | torn {t s} : IsTorn t s → IsValue (.torn t) s
  | emptyArray {a} : IsSpace a → IsValue (.array []) ('[' :: (a ++ [']']))
  | array {items s} : IsItems items s → IsValue (.array items) ('[' :: (s ++ [']']))
  | emptyObject {a} : IsSpace a → IsValue (.object []) ('\x7b' :: (a ++ ['\x7d']))
  | object {members s} : IsMembers members s →
      IsValue (.object members) ('\x7b' :: (s ++ ['\x7d']))

/-- The items of an array, with commas between them. -/
inductive IsItems : List Tree → List Char → Prop
  | one {v a s b} : IsSpace a → IsValue v s → IsSpace b → IsItems [v] (a ++ (s ++ b))
  | more {v vs a s b r} : IsSpace a → IsValue v s → IsSpace b → IsItems vs r →
      IsItems (v :: vs) (a ++ (s ++ (b ++ ',' :: r)))

/-- The members of an object, each with its name before a colon. -/
inductive IsMembers : List (String × Tree) → List Char → Prop
  | one {k v a name b c s d} : IsSpace a → IsString k name → IsSpace b → IsSpace c →
      IsValue v s → IsSpace d → IsMembers [(k, v)] (a ++ (name ++ (b ++ ':' :: (c ++ (s ++ d)))))
  | more {k v ms a name b c s d r} : IsSpace a → IsString k name → IsSpace b → IsSpace c →
      IsValue v s → IsSpace d → IsMembers ms r →
      IsMembers ((k, v) :: ms) (a ++ (name ++ (b ++ ':' :: (c ++ (s ++ (d ++ ',' :: r))))))

end

/-- A text that is a document, with what it says. -/
inductive IsText : Tree → List Char → Prop
  | padded {v a s b} : IsSpace a → IsValue v s → IsSpace b → IsText v (a ++ (s ++ b))

theorem isSpace_nil : IsSpace [] := List.forall_mem_nil _

theorem IsValue.isText {v : Tree} {s : List Char} (h : IsValue v s) : IsText v s := by
  simpa using IsText.padded isSpace_nil h isSpace_nil

/-! ## Numbers -/

theorem mem_minus (negative : Bool) : Reading.minus negative ∈ [[], ['-']] := by
  cases negative <;> decide

theorem isWhole_toDigits (n : Nat) : IsWhole (Nat.toDigits 10 n) := by
  rcases Nat.eq_zero_or_pos n with rfl | hn
  · exact .zero
  · obtain ⟨d, ds, hdigits, hd⟩ := exists_toDigits_eq_cons hn
    have hmem : ∀ c ∈ Nat.toDigits 10 n, c.isDigit = true := fun c hc =>
      Nat.isDigit_of_mem_toDigits (by decide) (by decide) hc
    rw [hdigits] at hmem ⊢
    exact .digits hd ⟨List.cons_ne_nil d ds, hmem⟩

theorem isNumber_int (n : Int) : IsNumber (toString n).toList := by
  rw [toList_toString_int]
  simpa using IsNumber.parts (mem_minus _) (isWhole_toDigits n.natAbs) .missing .missing

theorem Numeral.IsFormed.isNumber {x : Numeral} (h : x.IsFormed) : IsNumber x.chars := by
  refine .parts (mem_minus x.negative) ?_ ?_ ?_
  · rcases h.whole with hwhole | ⟨d, ds, hwhole, hd⟩
    · exact hwhole ▸ .zero
    · have hdigits : ∀ c ∈ x.whole, c.isDigit = true :=
        fun c hc => h.digits c (List.mem_append_left _ hc)
      rw [hwhole] at hdigits ⊢
      exact .digits hd ⟨List.cons_ne_nil d ds, hdigits⟩
  · unfold fractionChars
    split
    · exact .missing
    · next hne =>
      exact .digits ⟨by simpa using hne, fun c hc => h.digits c (List.mem_append_right _ hc)⟩
  · unfold exponentChars
    cases hexp : x.exponent with
    | none => exact .missing
    | some y =>
      obtain ⟨hne, hdigits⟩ := h.exponent y hexp
      have hsign : [if y.1 then '-' else '+'] ∈ [[], ['-'], ['+']] := by cases y.1 <;> decide
      exact .digits (by decide) hsign ⟨hne, hdigits⟩

/-- The text of a finite double is a number. -/
theorem isNumber_float {x : Binary64} (hx : x.IsProper) (hfinite : x.isFinite = true) :
    IsNumber (x.text .document).toList := by
  cases x with
  | nan => cases hfinite
  | infinite s => cases hfinite
  | finite s m e =>
    rcases Nat.eq_zero_or_pos m with rfl | hm
    · have htext : ((Binary64.finite s 0 e).text .document).toList =
          Reading.minus s ++ (['0'] ++ (['.', '0'] ++ [])) := by
        cases s <;> simp [Binary64.text, Reading.minus]
      rw [htext]
      exact .parts (mem_minus s) .zero (.digits ⟨by decide, by simp⟩) .missing
    · obtain ⟨hd, -⟩ := Binary64.shortest_reaches hm hx
      obtain ⟨x, -, hformed, htext, -⟩ := exists_shows_text s hm hd
      rw [← htext, String.toList_ofList]
      exact hformed.isNumber

/-! ## Strings -/

theorem hexValue?_digitChar : ∀ d < 16, Text.hexValue? (Nat.digitChar d) = some d := by
  decide

theorem isUnit_hexDigits {n : Nat} (hn : n < 0x10000) : IsUnit (Text.hexDigits 4 n) n := by
  obtain ⟨ds, hdigits, hex⟩ := Text.exists_hexDigits_eq_map 4 n
  refine ⟨?_, ds, ?_, hex⟩
  · have hlength : (Nat.toDigits 16 n).length ≤ 4 :=
      (Nat.length_toDigits_le_iff (by decide) (by decide)).2 hn
    rw [Text.hexDigits, List.length_append, List.length_replicate]
    omega
  · have hread : ∀ ds : List Nat, (∀ d ∈ ds, d < 16) →
        (ds.map Nat.digitChar).mapM Text.hexValue? = some ds := by
      intro ds
      induction ds with
      | nil => exact fun _ => rfl
      | cons d ds ih =>
        intro hsmall
        rw [List.map_cons, List.mapM_cons, hexValue?_digitChar d (hsmall d List.mem_cons_self),
          ih fun d hd => hsmall d (List.mem_cons_of_mem _ hd)]
        rfl
    rw [hdigits]
    exact hread ds hex.small

/-- A character beyond the units is written by two of them. -/
theorem isChar_pair {c : Char} {high low : Nat} (hhigh : high < 0x400) (hlow : low < 0x400)
    (h : c.toNat = 0x10000 + (0x400 * high + low)) :
    IsChar c (unitEscape (0xd800 + high) ++ unitEscape (0xdc00 + low)) :=
  .pair (isUnit_hexDigits (by omega)) (isUnit_hexDigits (by omega)) hhigh hlow h

theorem toNat_lt (c : Char) : c.toNat < 0x110000 := by
  have hvalid := c.valid
  simp only [UInt32.isValidChar, Nat.isValidChar] at hvalid
  simp only [Char.toNat]
  omega

theorem isChar_charText (c : Char) : IsChar c (charText c) := by
  unfold charText
  split
  · next h =>
    obtain rfl | rfl : c = '"' ∨ c = '\\' := by simpa using h
    · exact .short (by decide)
    · exact .short (by decide)
  split
  · next h => exact eq_of_beq h ▸ .short (by decide)
  split
  · next h => exact eq_of_beq h ▸ .short (by decide)
  split
  · next h => exact eq_of_beq h ▸ .short (by decide)
  split
  · next h =>
    rw [← Char.ofNat_toNat c, h]
    exact .short (by decide)
  split
  · next h =>
    rw [← Char.ofNat_toNat c, h]
    exact .short (by decide)
  split
  · next hmark _ _ _ _ _ hprints =>
    simp only [Bool.or_eq_true, beq_iff_eq, not_or] at hmark
    simp only [Bool.and_eq_true, decide_eq_true_eq] at hprints
    exact .plain hprints.1 hmark.1 hmark.2
  split
  · next h => exact .unit (isUnit_hexDigits h)
  · next h =>
    have hrange := toNat_lt c
    exact isChar_pair (by omega) (Nat.mod_lt _ (by decide)) (by omega)

/-- A text in quotes is a string of the text. -/
theorem isString_stringText (s : String) : IsString s (stringText s).toList := by
  have hchars : ∀ cs : List Char, IsChars cs (cs.flatMap charText) := by
    intro cs
    induction cs with
    | nil => exact .nil
    | cons c cs ih => exact .cons (isChar_charText c) ih
  rw [stringText, String.toList_ofList]
  exact .quoted (hchars s.toList)

/-- A torn text in quotes is a string of the torn text. -/
theorem isTorn_tornText (t : TornText) : IsTorn t (tornText t).toList := by
  have hpoints : ∀ ns : List Nat, (∀ n ∈ ns, n < 0x110000) →
      IsPoints ns (ns.flatMap pointText) := by
    intro ns
    induction ns with
    | nil => exact fun _ => .nil
    | cons n ns ih =>
      intro hrange
      obtain ⟨hn, hns⟩ := List.forall_mem_cons.1 hrange
      rw [List.flatMap_cons, pointText]
      split
      · next hhalf =>
        have hunit : n < 0x10000 := by
          simp only [Text.isHalf, Bool.and_eq_true, decide_eq_true_eq] at hhalf
          omega
        exact .half hhalf (isUnit_hexDigits hunit) (ih hns)
      · next hhalf =>
        have hchar := IsPoints.char (isChar_charText (Char.ofNat n)) (ih hns)
        rwa [Text.toNat_ofNat hn (Bool.eq_false_iff.2 hhalf)] at hchar
  rw [tornText, String.toList_ofList]
  exact .quoted (hpoints t.points t.inRange)

/-! ## Items and members -/

theorem toList_intercalate_cons (a b : String) (r : List String) :
    (",".intercalate (a :: b :: r)).toList =
      a.toList ++ (',' :: (",".intercalate (b :: r)).toList) := by
  rw [String.toList_intercalate, String.toList_intercalate, List.map_cons, List.map_cons,
    List.intercalate_cons_cons, List.append_assoc]
  rfl

/-- Items without blanks. -/
theorem isItems_intercalate {vs : List Tree} {texts : List String}
    (h : List.Forall₂ (fun v text => IsValue v text.toList) vs texts) (hne : vs ≠ []) :
    IsItems vs (",".intercalate texts).toList := by
  induction h with
  | nil => exact absurd rfl hne
  | @cons v text vs texts hv hvs ih =>
    cases hvs with
    | nil =>
      simpa using IsItems.one isSpace_nil hv isSpace_nil
    | cons hw hws =>
      rw [toList_intercalate_cons]
      exact .more isSpace_nil hv isSpace_nil (ih (List.cons_ne_nil _ _))

/-- An array without blanks. -/
theorem isValue_array {vs : List Tree} {texts : List String}
    (h : List.Forall₂ (fun v text => IsValue v text.toList) vs texts) :
    IsValue (.array vs) ("[" ++ ",".intercalate texts ++ "]").toList := by
  have htext : ("[" ++ ",".intercalate texts ++ "]").toList =
      '[' :: ((",".intercalate texts).toList ++ [']']) := by simp
  rw [htext]
  by_cases hne : vs = []
  · subst hne
    cases h
    exact .emptyArray isSpace_nil
  · exact .array (isItems_intercalate h hne)

/-- A member and its text without blanks. -/
def IsMember (member : String × Tree) (text : String) : Prop :=
  ∃ name s, text.toList = name ++ ':' :: s ∧ IsString member.1 name ∧ IsValue member.2 s

/-- Members without blanks. -/
theorem isMembers_intercalate {ms : List (String × Tree)} {texts : List String}
    (h : List.Forall₂ IsMember ms texts) (hne : ms ≠ []) :
    IsMembers ms (",".intercalate texts).toList := by
  induction h with
  | nil => exact absurd rfl hne
  | @cons m text ms texts hm hms ih =>
    obtain ⟨name, s, htext, hname, hvalue⟩ := hm
    cases hms with
    | nil =>
      simpa [htext] using IsMembers.one isSpace_nil hname isSpace_nil isSpace_nil hvalue isSpace_nil
    | cons hw hws =>
      rw [toList_intercalate_cons, htext, List.append_assoc]
      exact .more isSpace_nil hname isSpace_nil isSpace_nil hvalue isSpace_nil
        (ih (List.cons_ne_nil _ _))

/-- An object without blanks. -/
theorem isValue_object {ms : List (String × Tree)} {texts : List String}
    (h : List.Forall₂ IsMember ms texts) :
    IsValue (.object ms) ("\x7b" ++ ",".intercalate texts ++ "\x7d").toList := by
  have htext : ("\x7b" ++ ",".intercalate texts ++ "\x7d").toList =
      '\x7b' :: ((",".intercalate texts).toList ++ ['\x7d']) := by simp
  rw [htext]
  by_cases hne : ms = []
  · subst hne
    cases h
    exact .emptyObject isSpace_nil
  · exact .object (isMembers_intercalate h hne)

end Hypermedia.Json
