import Hypermedia.Format.Negotiation
import Hypermedia.Proofs.Format.Links
import Hypermedia.Proofs.Outcome

/-!
# Texts of answers

Settings let every answer be written if the format that they name is one that there is and
their indentation is a number (`Settings.CanReply`); then a value that has a document is
written in every format that is chosen (`renderAs_eq_ok`). The text of errors is that of an
object that begins with the mark of errors (`Negotiation.IsErrorText`). No text of an object
that begins with an address is one, in whatever format either is written
(`Negotiation.not_isErrorText`).
-/

namespace Hypermedia

/-! ## Beginnings of texts -/

/-- Texts one after the other begin with the first. -/
theorem exists_intercalate_cons (sep a : String) (r : List String) :
    ∃ rest, (sep.intercalate (a :: r)).toList = a.toList ++ rest := by
  rw [String.toList_intercalate]
  cases r with
  | nil => exact ⟨[], by simp [List.intercalate]⟩
  | cons b r => exact ⟨_, by rw [List.map_cons, List.map_cons, List.intercalate_cons_cons,
      List.append_assoc]⟩

namespace Json

theorem compact_object (k : String) (v : Json) (r : List (String × Json)) :
    ∃ rest, (compact (.object ((k, v) :: r))).toList = '{' :: ((stringText k).toList ++ rest) := by
  obtain ⟨rest, h⟩ := exists_intercalate_cons "," (stringText k ++ ":" ++ compact v)
    (compactFields r)
  refine ⟨[':'] ++ ((compact v).toList ++ (rest ++ ['}'])), ?_⟩
  rw [compact, compactFields, String.toList_append, String.toList_append, h]
  simp

theorem pretty_object (step : Nat) (k : String) (v : Json) (r : List (String × Json)) :
    ∃ rest, (pretty step (.object ((k, v) :: r))).toList =
      '{' :: ((newLine step).toList ++ ((stringText k).toList ++ rest)) := by
  obtain ⟨rest, h⟩ := exists_intercalate_cons ("," ++ newLine (0 + step))
    (stringText k ++ ": " ++ prettyAt step (0 + step) v) (prettyFields step (0 + step) r)
  refine ⟨[':', ' '] ++ ((prettyAt step (0 + step) v).toList ++
    (rest ++ ((newLine 0).toList ++ ['}']))), ?_⟩
  rw [pretty, prettyAt, prettyFields, String.toList_append, String.toList_append,
    String.toList_append, String.toList_append, h]
  simp

end Json

namespace Format

variable {detail : Detail}

/-- The document of an object has its names. -/
theorem document_object {fields : List (String × Value)} {d : Json} :
    document detail (.object fields) = .ok d ↔ ∃ ds, d = .object ds ∧
      List.Forall₂ (fun f g => g.1 = f.1 ∧ document detail f.2 = .ok g.2) fields ds := by
  have hfields : ∀ {fields : List (String × Value)} {ds : List (String × Json)},
      fieldDocuments detail fields = .ok ds ↔
        List.Forall₂ (fun f g => g.1 = f.1 ∧ document detail f.2 = .ok g.2) fields ds := by
    intro fields
    induction fields with
    | nil => simp [fieldDocuments, eq_comm]
    | cons f r ih =>
      intro ds
      rw [fieldDocuments]
      simp only [bind_eq_ok, ih]
      constructor
      · rintro ⟨d, hd, ds, hds, hok⟩
        cases hok
        exact .cons ⟨rfl, hd⟩ hds
      · rintro (_ | ⟨⟨hk, hd⟩, hds⟩)
        exact ⟨_, hd, _, hds, by rw [← hk]⟩
  rw [document]
  simp only [map_eq_ok, hfields]
  exact exists_congr fun ds => and_comm.trans (and_congr_left fun _ => eq_comm)

/-- What an object has of a name is shown in its document under the name. -/
theorem get?_document {fields : List (String × Value)} {ds : List (String × Json)}
    (h : List.Forall₂ (fun f g => g.1 = f.1 ∧ document detail f.2 = .ok g.2) fields ds)
    {name : String} {v : Value} (hv : Fields.get? name fields = some v) :
    ∃ d, Fields.get? name ds = some d ∧ document detail v = .ok d := by
  induction h with
  | nil => cases hv
  | @cons f g fields ds hfg _ ih =>
    by_cases hname : f.1 = name
    · rw [Fields.get?, List.find?_cons_of_pos (by simpa using hname)] at hv
      rw [Fields.get?, List.find?_cons_of_pos (by simpa using hfg.1.trans hname)]
      exact ⟨g.2, rfl, Option.some.inj hv ▸ hfg.2⟩
    · rw [Fields.get?, List.find?_cons_of_neg (by simpa using hname)] at hv
      rw [Fields.get?, List.find?_cons_of_neg (by simpa [hfg.1] using hname)]
      exact ih hv

/-- An object has a document if each of its fields has one. -/
theorem exists_document_object {fields : List (String × Value)}
    (h : ∀ f ∈ fields, ∃ d, document detail f.2 = .ok d) :
    ∃ d, document detail (.object fields) = .ok d := by
  obtain ⟨ds, hds⟩ : ∃ ds : List (String × Json), List.Forall₂
      (fun f g => g.1 = f.1 ∧ document detail f.2 = .ok g.2) fields ds := by
    induction fields with
    | nil => exact ⟨[], .nil⟩
    | cons f r ih =>
      obtain ⟨d, hd⟩ := h f List.mem_cons_self
      obtain ⟨ds, hds⟩ := ih fun g hg => h g (List.mem_cons_of_mem _ hg)
      exact ⟨(f.1, d) :: ds, .cons ⟨rfl, hd⟩ hds⟩
  exact ⟨_, document_object.2 ⟨ds, rfl, hds⟩⟩

/-- A list has a document if each of its items has one. -/
theorem exists_document_list {items : List Value}
    (h : ∀ v ∈ items, ∃ d, document detail v = .ok d) :
    ∃ d, document detail (.list items) = .ok d := by
  obtain ⟨ds, hds⟩ : ∃ ds, documents detail items = .ok ds := by
    induction items with
    | nil => exact ⟨[], rfl⟩
    | cons v r ih =>
      obtain ⟨d, hd⟩ := h v List.mem_cons_self
      obtain ⟨ds, hds⟩ := ih fun w hw => h w (List.mem_cons_of_mem _ hw)
      exact ⟨d :: ds, bind_eq_ok.2 ⟨d, hd, bind_eq_ok.2 ⟨ds, hds, rfl⟩⟩⟩
  exact ⟨.array ds, by rw [document, hds]; rfl⟩

end Format

/-! ## Answers that can be written -/

/-- The settings let every answer be written: the format for addresses without a suffix is one
that there is, and the indentation of pages is a number. -/
structure Settings.CanReply (settings : Settings) : Prop where
  format : (settings.get "DEFAULT_FORMAT").truthy = true →
    ∃ s, settings.get "DEFAULT_FORMAT" = .text s ∧ (Format.ofName? s).isSome = true
  indent : ∃ n, Conversion.toInt (settings.get "PRETTY_INDENT") = .ok n

namespace Negotiation

variable {settings : Settings} {detail : Detail}

/-- A format that is chosen is one that there is. -/
theorem choose_eq_ok (hs : settings.CanReply) {suffix : Option String} {v : Value}
    (h : choose settings suffix = .ok v) : ∃ s f, v = .text s ∧ Format.ofName? s = some f := by
  cases suffix with
  | none =>
    obtain rfl := Except.ok.inj h
    split
    · next htruthy =>
      obtain ⟨s, hs, hsome⟩ := hs.format htruthy
      exact ⟨s, _, hs, Option.eq_some_of_isSome hsome⟩
    · exact ⟨_, .json, rfl, rfl⟩
  | some s =>
    simp only [choose] at h
    split at h
    · next hsome =>
      obtain rfl := Except.ok.inj h
      exact ⟨s, _, rfl, Option.eq_some_of_isSome hsome⟩
    · cases h

/-- A value that has a document is written in every format. -/
theorem exists_text (hs : settings.CanReply) {v : Value} {d : Json}
    (hd : Format.document detail v = .ok d) (f : Format) :
    ∃ body, text settings detail v f = .ok body := by
  obtain ⟨n, hn⟩ := hs.indent
  cases f with
  | json => exact ⟨_, by rw [text, Format.compact, hd]; rfl⟩
  | page => exact ⟨_, by rw [text, hn, hd]; rfl⟩

/-- The text of a value in the format that is chosen. -/
def IsText (settings : Settings) (detail : Detail) (suffix : Option String) (v : Value)
    (body : String) : Prop :=
  ∃ s f, choose settings suffix = .ok (.text s) ∧ Format.ofName? s = some f ∧
    text settings detail v f = .ok body

theorem IsText.unique {suffix : Option String} {v : Value} {a b : String}
    (ha : IsText settings detail suffix v a) (hb : IsText settings detail suffix v b) : a = b := by
  obtain ⟨s, f, hs, hf, ha⟩ := ha
  obtain ⟨s', f', hs', hf', hb⟩ := hb
  obtain rfl := Value.text.inj (Except.ok.inj (hs.symm.trans hs'))
  obtain rfl := Option.some.inj (hf.symm.trans hf')
  exact Except.ok.inj (ha.symm.trans hb)

/-- In the format of documents the text of a value is that of its document. -/
theorem IsText.exists_document {suffix : Option String} {v : Value} {body : String}
    (hformat : choose settings suffix = .ok (.text Format.json.name))
    (h : IsText settings detail suffix v body) :
    ∃ d, Format.document detail v = .ok d ∧ body = d.compact := by
  obtain ⟨s, f, hs, hf, hbody⟩ := h
  obtain rfl := Value.text.inj (Except.ok.inj (hformat.symm.trans hs))
  obtain rfl : Format.json = f := Option.some.inj hf
  obtain ⟨d, hd, rfl⟩ := map_eq_ok.1 hbody
  exact ⟨d, hd, rfl⟩

/-- So a text of fields is a compact object, which has the documents of the fields. -/
theorem IsText.exists_object {suffix : Option String} {fields : List (String × Value)}
    {body : String} (hformat : choose settings suffix = .ok (.text Format.json.name))
    (h : IsText settings detail suffix (.object fields) body) :
    ∃ doc, body = (Json.object doc).compact ∧ ∀ name v, Fields.get? name fields = some v →
      ∃ d, Fields.get? name doc = some d ∧ Format.document detail v = .ok d := by
  obtain ⟨d, hd, hbody⟩ := h.exists_document hformat
  obtain ⟨doc, rfl, hdoc⟩ := Format.document_object.1 hd
  exact ⟨doc, hbody, fun _ _ hv => Format.get?_document hdoc hv⟩

/-- An answer in a format that is chosen has the text of its value. -/
theorem renderAs_eq_ok {suffix : Option String} {format v : Value}
    (hformat : choose settings suffix = .ok format) {status : Nat}
    {headers : List (String × String)} {r : Response}
    (h : renderAs settings detail v format status headers = .ok r) :
    r.status = status ∧ r.headers = headers.filter (fun h => h.1.toLower != "content-type") ∧
      IsText settings detail suffix v r.body := by
  unfold renderAs at h
  split at h
  · next s =>
    split at h
    · next f hf =>
      obtain ⟨body, hbody, h⟩ := bind_eq_ok.1 h
      obtain rfl := Except.ok.inj h
      exact ⟨rfl, rfl, s, f, hformat, hf, hbody⟩
    · cases h
  all_goals cases h

/-- A value that has a document is answered in a format that is chosen. -/
theorem exists_renderAs (hs : settings.CanReply) {suffix : Option String} {format v : Value}
    (hformat : choose settings suffix = .ok format) {d : Json}
    (hd : Format.document detail v = .ok d) (status : Nat) (headers : List (String × String)) :
    ∃ r, renderAs settings detail v format status headers = .ok r := by
  obtain ⟨s, f, rfl, hf⟩ := choose_eq_ok hs hformat
  obtain ⟨body, hbody⟩ := exists_text hs hd f
  exact ⟨_, by simp only [renderAs, hf, render, hbody]; rfl⟩

/-! ## Texts of errors -/

/-- The text is that of an object that begins with the mark of errors, in some format. -/
def IsErrorText (settings : Settings) (detail : Detail) (body : String) : Prop :=
  ∃ rest format, text settings detail (.object (("error", .bool true) :: rest)) format = .ok body

/-- The text of an object, in terms of the first name: the document as it is, or in a page. -/
theorem text_object {k : String} {v : Value} {r : List (String × Value)} {f : Format}
    {body : String} (h : text settings detail (.object ((k, v) :: r)) f = .ok body) :
    (∃ rest, body.toList = '{' :: ((Json.stringText k).toList ++ rest)) ∨
      ∃ n s rest, Conversion.toInt (settings.get "PRETTY_INDENT") = .ok n ∧
        body = page (Format.linkUrls s) ∧
        s.toList =
          '{' :: ((Json.newLine n.toNat).toList ++ ((Json.stringText k).toList ++ rest)) := by
  have hobject : ∀ {d : Json}, Format.document detail (.object ((k, v) :: r)) = .ok d →
      ∃ w ds, d = .object ((k, w) :: ds) := by
    intro d hd
    obtain ⟨ds, rfl, hds⟩ := Format.document_object.1 hd
    obtain _ | @⟨_, g, _, ds, ⟨hk, -⟩, -⟩ := hds
    obtain rfl : g.1 = k := hk
    exact ⟨g.2, ds, rfl⟩
  cases f with
  | json =>
    obtain ⟨d, hd, rfl⟩ := map_eq_ok.1 h
    obtain ⟨w, ds, rfl⟩ := hobject hd
    exact Or.inl (Json.compact_object k w ds)
  | page =>
    simp only [text, bind_eq_ok] at h
    obtain ⟨n, hn, d, hd, hbody⟩ := h
    obtain ⟨w, ds, rfl⟩ := hobject hd
    obtain ⟨rest, hrest⟩ := Json.pretty_object n.toNat k w ds
    exact Or.inr ⟨n, _, rest, hn, (Except.ok.inj hbody).symm, hrest⟩

/-- A page begins with a tag, and the text stands in it as it is. -/
theorem page_eq : ∃ start finish : String, start.toList.head? = some '<' ∧
    ∀ body, page body = start ++ body ++ finish :=
  ⟨_, _, by decide +kernel, fun _ => rfl⟩

theorem page_inj {a b : String} (h : page a = page b) : a = b := by
  obtain ⟨start, finish, -, hpage⟩ := page_eq
  rw [hpage, hpage, String.append_left_inj, String.append_right_inj] at h
  exact h

theorem head?_page (a : String) : (page a).toList.head? = some '<' := by
  obtain ⟨start, finish, hstart, hpage⟩ := page_eq
  rw [hpage, String.toList_append, String.toList_append, List.append_assoc, List.head?_append,
    hstart]
  rfl

/-- The text of an object that begins with an address is no text of errors. -/
theorem not_isErrorText {v : Value} {r : List (String × Value)} {f : Format} {body : String}
    (h : text settings detail (.object (("uri", v) :: r)) f = .ok body) :
    ¬IsErrorText settings detail body := by
  rintro ⟨rest, f', h'⟩
  have huri : (Json.stringText "uri").toList = '"' :: 'u' :: ['r', 'i', '"'] := by decide
  have herror : (Json.stringText "error").toList = '"' :: 'e' :: ['r', 'r', 'o', 'r', '"'] := by
    decide
  -- A document begins with a brace, which no page does.
  have hpage : ∀ {body a : String} {rest : List Char}, body.toList = '{' :: rest →
      body ≠ page a := by
    rintro body a rest hbrace rfl
    have hhead := head?_page a
    rw [hbrace] at hhead
    cases hhead
  rcases text_object h with ⟨a, ha⟩ | ⟨n, s, a, hn, hs, ha⟩ <;>
    rcases text_object h' with ⟨b, hb⟩ | ⟨n', s', b, hn', hs', hb⟩
  · rw [ha, huri, herror] at hb
    simp at hb
  · exact hpage ha hs'
  · exact hpage hb hs
  · obtain rfl := Except.ok.inj (hn.symm.trans hn')
    obtain rfl := Format.linkUrls_inj (page_inj (hs.symm.trans hs'))
    rw [ha, huri, herror] at hb
    simp at hb

/-- Nothing at all is no text of errors. -/
theorem not_isErrorText_empty : ¬IsErrorText settings detail "" := by
  rintro ⟨rest, f, h⟩
  rcases text_object h with ⟨a, ha⟩ | ⟨n, s, a, -, hs, -⟩
  · cases ha
  · have hhead := head?_page (Format.linkUrls s)
    rw [← hs] at hhead
    cases hhead

end Negotiation

end Hypermedia
