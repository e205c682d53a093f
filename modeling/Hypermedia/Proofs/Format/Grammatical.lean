import Hypermedia.Format.Negotiation
import Hypermedia.Proofs.Format.Grammar
import Hypermedia.Proofs.Number.Range
import Hypermedia.Proofs.Outcome

/-!
# Answers by the grammar

A value is written as a document that says what the value is (`Value.tree`): objects have the names
of the value in its order, and dates, times, durations, identifiers, bytes and foreign values are
texts. What is written is a text by the grammar of documents (`Negotiation.isText_render`), if the
integers of the value are not too long, its floats are finite and its decimals are in the range of
doubles. Too long an integer is not written at all; a decimal beyond that range is written as an
infinity, for which the grammar has no text (`not_isText_overflow`).
-/

namespace Hypermedia

namespace Value

mutual

/-- What the document of a value says. -/
def tree (detail : Detail) : Value → Json.Tree
  | .null => .null
  | .bool b => .bool b
  | .int _ => .number
  | .float _ => .number
  | .decimal _ => .number
  | .text s => .text s
  | .torn t => .torn t
  | .bytes b => .text (Format.hexText b)
  | .date d => .text d.text
  | .time t => .text t.text
  | .dateTime d => .text (d.text " ")
  | .duration d => .text d.text
  | .uuid u => .text u.text
  | .foreign _ s =>
    match detail with
    | .full => .text s
    | .brief => .object [("error", .text "HyperJSONProvider invalid object")]
  | .list items => .array (trees detail items)
  | .object fields => .object (fieldTrees detail fields)

/-- What the documents of the items of a list say. -/
def trees (detail : Detail) : List Value → List Json.Tree
  | [] => []
  | v :: r => tree detail v :: trees detail r

/-- What the documents of the fields of an object say, under the names of the fields. -/
def fieldTrees (detail : Detail) : List (String × Value) → List (String × Json.Tree)
  | [] => []
  | (k, v) :: r => (k, tree detail v) :: fieldTrees detail r

end

/-- A value stands in another: it is that value, or it stands in an item or in a field of it. -/
inductive Has : Value → Value → Prop
  | self {v} : Has v v
  | item {items v x} : v ∈ items → Has v x → Has (.list items) x
  | field {fields k v x} : (k, v) ∈ fields → Has v x → Has (.object fields) x

/-- Every integer in the value is short enough to be written, every float is a finite double, and
every decimal is a number in the range of doubles. -/
structure IsInRange (v : Value) : Prop where
  int : ∀ n, v.Has (.int n) → Reading.isShort n = true
  float : ∀ x, v.Has (.float x) → x.IsProper ∧ x.isFinite = true
  decimal : ∀ d, v.Has (.decimal d) →
    ∃ s c e, d = .finite s c e ∧ (c : ℚ) * 10 ^ e < Binary64.rangeEnd

theorem IsInRange.item {items : List Value} (h : (Value.list items).IsInRange) {v : Value}
    (hv : v ∈ items) : v.IsInRange :=
  ⟨fun n hn => h.int n (.item hv hn), fun x hx => h.float x (.item hv hx),
    fun d hd => h.decimal d (.item hv hd)⟩

theorem IsInRange.ofItems {items : List Value} (h : ∀ v ∈ items, v.IsInRange) :
    (Value.list items).IsInRange where
  int n hn := by
    cases hn with
    | item hv hn => exact (h _ hv).int n hn
  float x hx := by
    cases hx with
    | item hv hx => exact (h _ hv).float x hx
  decimal d hd := by
    cases hd with
    | item hv hd => exact (h _ hv).decimal d hd

theorem IsInRange.ofFields {fields : List (String × Value)}
    (h : ∀ k v, (k, v) ∈ fields → v.IsInRange) : (Value.object fields).IsInRange where
  int n hn := by
    cases hn with
    | field hv hn => exact (h _ _ hv).int n hn
  float x hx := by
    cases hx with
    | field hv hx => exact (h _ _ hv).float x hx
  decimal d hd := by
    cases hd with
    | field hv hd => exact (h _ _ hv).decimal d hd

theorem IsInRange.field {fields : List (String × Value)} (h : (Value.object fields).IsInRange)
    {k : String} {v : Value} (hv : (k, v) ∈ fields) : v.IsInRange :=
  ⟨fun n hn => h.int n (.field hv hn), fun x hx => h.float x (.field hv hx),
    fun d hd => h.decimal d (.field hv hd)⟩

end Value

namespace Format

open Json

/-- The document of a value is written by the grammar. -/
def IsWritten (detail : Detail) (v : Value) (d : Json) : Prop :=
  document detail v = .ok d ∧ IsValue (v.tree detail) d.compact.toList

variable {detail : Detail}

theorem isWritten_text {v : Value} {s : String} (hdocument : document detail v = .ok (.text s))
    (htree : v.tree detail = .text s) : IsWritten detail v (.text s) :=
  ⟨hdocument, htree ▸ .text (isString_stringText s)⟩

theorem isMember_compact {k : String} {t : Tree} {text : String} (h : IsValue t text.toList) :
    IsMember (k, t) (stringText k ++ ":" ++ text) :=
  ⟨_, _, by simp, isString_stringText k, h⟩

mutual

/-- A value in range has a document, which is written by the grammar. -/
theorem exists_isWritten : ∀ {v : Value}, v.IsInRange → ∃ d, IsWritten detail v d
  | .null, _ => ⟨.null, rfl, .null⟩
  | .bool b, _ => ⟨.bool b, rfl, by cases b; exacts [.false, .true]⟩
  | .int n, h => ⟨.int n, if_pos (h.int n .self), .number (isNumber_int n)⟩
  | .float x, h => by
    obtain ⟨hproper, hfinite⟩ := h.float x .self
    exact ⟨.float x, rfl, .number (isNumber_float hproper hfinite)⟩
  | .decimal d, h => by
    obtain ⟨s, c, e, rfl, hrange⟩ := h.decimal d .self
    have hproper := Binary64.isProper_ofDecimal s c e
    exact ⟨.float _, rfl, .number (isNumber_float hproper (Binary64.isFinite_ofDecimal s hrange))⟩
  | .text s, _ => ⟨_, isWritten_text rfl rfl⟩
  | .torn t, _ => ⟨.torn t, rfl, .torn (isTorn_tornText t)⟩
  | .bytes b, _ => ⟨_, isWritten_text rfl rfl⟩
  | .date d, _ => ⟨_, isWritten_text rfl rfl⟩
  | .time t, _ => ⟨_, isWritten_text rfl rfl⟩
  | .dateTime d, _ => ⟨_, isWritten_text rfl rfl⟩
  | .duration d, _ => ⟨_, isWritten_text rfl rfl⟩
  | .uuid u, _ => ⟨_, isWritten_text rfl rfl⟩
  | .foreign id s, _ => by
    cases detail with
    | full => exact ⟨_, isWritten_text rfl rfl⟩
    | brief =>
      have hmember : IsMember ("error", .text "HyperJSONProvider invalid object")
          (stringText "error" ++ ":" ++ stringText "HyperJSONProvider invalid object") :=
        isMember_compact (.text (isString_stringText _))
      exact ⟨hiddenObject, rfl, isValue_object (.cons hmember .nil)⟩
  | .list items, h => by
    obtain ⟨ds, hds, hwritten⟩ := exists_items fun v hv => h.item hv
    refine ⟨.array ds, by rw [document, hds]; rfl, ?_⟩
    rw [Json.compact, Value.tree]
    exact isValue_array hwritten
  | .object fields, h => by
    obtain ⟨ds, hds, hwritten⟩ := exists_members fun k v hv => h.field hv
    refine ⟨.object ds, by rw [document, hds]; rfl, ?_⟩
    rw [Json.compact, Value.tree]
    exact isValue_object hwritten

/-- The items of a list in range have documents, which are written by the grammar. -/
theorem exists_items : ∀ {items : List Value}, (∀ v ∈ items, v.IsInRange) →
    ∃ ds, documents detail items = .ok ds ∧
      List.Forall₂ (fun v text => IsValue v text.toList) (Value.trees detail items)
        (compactItems ds)
  | [], _ => ⟨[], rfl, .nil⟩
  | v :: r, h => by
    obtain ⟨d, hd, hvalue⟩ := exists_isWritten (h v List.mem_cons_self)
    obtain ⟨ds, hds, hwritten⟩ := exists_items fun w hw => h w (List.mem_cons_of_mem v hw)
    exact ⟨d :: ds, bind_eq_ok.2 ⟨d, hd, bind_eq_ok.2 ⟨ds, hds, rfl⟩⟩, .cons hvalue hwritten⟩

/-- The fields of an object in range have documents, which are written by the grammar. -/
theorem exists_members : ∀ {fields : List (String × Value)},
    (∀ k v, (k, v) ∈ fields → v.IsInRange) →
    ∃ ds, fieldDocuments detail fields = .ok ds ∧
      List.Forall₂ IsMember (Value.fieldTrees detail fields) (compactFields ds)
  | [], _ => ⟨[], rfl, .nil⟩
  | (k, v) :: r, h => by
    obtain ⟨d, hd, hvalue⟩ := exists_isWritten (h k v List.mem_cons_self)
    obtain ⟨ds, hds, hwritten⟩ :=
      exists_members fun k w hw => h k w (List.mem_cons_of_mem _ hw)
    exact ⟨(k, d) :: ds, bind_eq_ok.2 ⟨d, hd, bind_eq_ok.2 ⟨ds, hds, rfl⟩⟩,
      .cons (isMember_compact hvalue) hwritten⟩

end

end Format

namespace Negotiation

/-- The answer with a value in the format of documents has a body that is written by the grammar
and says what the value is, if the integers of the value are short enough to be written, its floats
finite and its decimals in range. -/
theorem isText_render (settings : Settings) (detail : Detail) {v : Value} (h : v.IsInRange)
    (status : Nat) (headers : List (String × String)) :
    ∃ r, render settings detail v .json status headers = .ok r ∧
      Json.IsText (v.tree detail) r.body.toList := by
  obtain ⟨d, hd, hvalue⟩ : ∃ d, Format.IsWritten detail v d := Format.exists_isWritten h
  refine ⟨_, bind_eq_ok.2 ⟨d.compact, ?_, rfl⟩, hvalue.isText⟩
  exact map_eq_ok.2 ⟨d, hd, rfl⟩

/-- A book with its pages, its price, its formats and what else is known about it. -/
def bookValue : Value :=
  .object [("title", .text "A \"new\" café"), ("pages", .int 320),
    ("price", .decimal (.finite false 950 (-2))),
    ("formats", .list [.text "paper", .null, .foreign 0 "ebook"])]

theorem isInRange_bookValue : bookValue.IsInRange := by
  have hpages : (Value.int 320).IsInRange := by
    refine ⟨fun n hn => ?_, nofun, nofun⟩
    cases hn
    decide
  have hprice : (Value.decimal (.finite false 950 (-2))).IsInRange := by
    refine ⟨nofun, nofun, fun d hd => ?_⟩
    cases hd
    refine ⟨false, 950, -2, rfl, ?_⟩
    have hpow : (1 : ℚ) ≤ 2 ^ 970 := one_le_pow₀ one_le_two
    calc ((950 : ℕ) : ℚ) * 10 ^ (-2 : ℤ) < (2 ^ 54 - 1) * 1 := by norm_num
      _ ≤ Binary64.rangeEnd := mul_le_mul_of_nonneg_left hpow (by norm_num)
  have hformats : (Value.list [.text "paper", .null, .foreign 0 "ebook"]).IsInRange := by
    refine .ofItems fun v hv => ?_
    obtain rfl | rfl | rfl : v = .text "paper" ∨ v = .null ∨ v = .foreign 0 "ebook" := by
      simpa using hv
    all_goals exact ⟨nofun, nofun, nofun⟩
  refine .ofFields fun k v hv => ?_
  obtain ⟨-, rfl⟩ | ⟨-, rfl⟩ | ⟨-, rfl⟩ | ⟨-, rfl⟩ : (k = "title" ∧ v = _) ∨
      (k = "pages" ∧ v = _) ∨ (k = "price" ∧ v = _) ∨ k = "formats" ∧ v = _ := by simpa using hv
  · exact ⟨nofun, nofun, nofun⟩
  · exact hpages
  · exact hprice
  · exact hformats

/-- The book is written by the grammar, with its names in their order. -/
theorem isText_render_bookValue : bookValue.IsInRange ∧ ∃ r,
    render ⟨none, []⟩ .brief bookValue .json 200 [] = .ok r ∧
      Json.IsText (.object [("title", .text "A \"new\" café"), ("pages", .number),
        ("price", .number), ("formats", .array [.text "paper", .null,
          .object [("error", .text "HyperJSONProvider invalid object")]])]) r.body.toList :=
  ⟨isInRange_bookValue, isText_render ⟨none, []⟩ .brief isInRange_bookValue 200 []⟩

end Negotiation

namespace Json

theorem IsNumber.exists_cons {s : List Char} (h : IsNumber s) : ∃ c r, s = c :: r ∧ c ≠ 'I' := by
  cases h with
  | @parts sign whole fraction exponent hsign hwhole =>
    obtain ⟨c, r, rfl, hc⟩ : ∃ c r, whole = c :: r ∧ c ≠ 'I' := by
      cases hwhole with
      | zero => exact ⟨'0', [], rfl, by decide⟩
      | @digits d ds _ hdigits =>
        refine ⟨d, ds, rfl, fun heq => ?_⟩
        exact absurd (hdigits.digits d List.mem_cons_self) (heq ▸ by decide)
    rcases List.mem_cons.1 hsign with rfl | hsign
    · exact ⟨c, _, rfl, hc⟩
    · obtain rfl := List.mem_singleton.1 hsign
      exact ⟨'-', _, rfl, by decide⟩

theorem IsValue.exists_cons {t : Tree} {s : List Char} (h : IsValue t s) :
    ∃ c r, s = c :: r ∧ c ≠ 'I' := by
  cases h with
  | number hnumber => exact hnumber.exists_cons
  | text hstring | torn hstring =>
    cases hstring
    exact ⟨_, _, rfl, by decide⟩
  | _ => exact ⟨_, _, rfl, by decide⟩

/-- No text begins with the first letter of an infinity. -/
theorem IsText.head?_ne {t : Tree} {s : List Char} (h : IsText t s) : s.head? ≠ some 'I' := by
  cases h with
  | @padded a _ _ hspace hvalue =>
    obtain ⟨c, r, rfl, hc⟩ := hvalue.exists_cons
    cases a with
    | nil => simpa using hc
    | cons d a =>
      have hd : d ∈ [' ', '\t', '\n', '\r'] := hspace d List.mem_cons_self
      rintro heq
      obtain rfl : d = 'I' := by simpa using heq
      exact absurd hd (by decide)

/-- A finite decimal beyond the range of doubles is written as an infinity, which is no text by
the grammar. -/
theorem not_isText_overflow : ∃ r,
    Negotiation.render ⟨none, []⟩ .brief (.decimal (.finite false 1 400)) .json 200 [] = .ok r ∧
      r.body = "Infinity" ∧ ∀ t, ¬IsText t r.body.toList := by
  have hdouble : Binary64.ofDecimal false 1 400 = .infinite false := by decide +kernel
  refine ⟨_, bind_eq_ok.2 ⟨"Infinity", ?_, rfl⟩, rfl, fun t h => h.head?_ne (by simp)⟩
  rw [Negotiation.text, Format.compact, Format.document, Decimal.toBinary64?, hdouble]
  rfl

end Json

end Hypermedia
