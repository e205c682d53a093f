import Hypermedia.Api.Answer
import Hypermedia.Proofs.Fields
import Hypermedia.Proofs.Format.Texts
import Hypermedia.Proofs.Graph.Showing
import Hypermedia.Proofs.Number.Spelled

/-!
# Answers with full forms

The full form of a stored record has a document, as the values of its row do and as no count of
members is too long to be written (`Catalog.Sound.exists_document_fullForm`), so it can be answered
in every format; and no text of it is one of errors (`Act.ends_reply_full`).
-/

namespace Hypermedia

/-- The names in the full form of an entity. -/
def ResourceType.fieldNames (t : ResourceType) : List String :=
  "uri" :: (t.readableProperties.map Property.name ++
    t.readableRelationships.map Relationship.name ++ t.finders.map Finder.name)

namespace Representation

theorem fieldValues_eq (fields : List (String × Representation)) :
    fieldValues fields = fields.map fun f => (f.1, f.2.toValue) := by
  induction fields with
  | nil => rfl
  | cons f r ih =>
    rw [fieldValues, ih]
    rfl

theorem itemValues_eq (items : List Representation) : itemValues items = items.map toValue := by
  induction items with
  | nil => rfl
  | cons x r ih =>
    rw [itemValues, ih]
    rfl

/-- A count that is not beyond the range of the store is shown in every answer. -/
theorem exists_document_count {n : Nat} (h : (n : Int) ≤ storeIntegerBound) (detail : Detail) :
    ∃ d, Format.document detail (.int n) = .ok d :=
  ⟨_, if_pos (Reading.isShort_of_inStore (by simp only [storeIntegerBound]; omega) h)⟩

/-- Collections are shown in every answer. -/
theorem exists_document_ofMembers (uri : String) {members : List String}
    (h : (members.length : Int) ≤ storeIntegerBound) (detail : Detail) :
    ∃ d, Format.document detail (ofMembers uri members).toValue = .ok d := by
  rw [ofMembers, toValue, fieldValues_eq]
  refine Format.exists_document_object fun f hf => ?_
  simp only [List.map_cons, List.map_nil, List.mem_cons, List.not_mem_nil, or_false] at hf
  rcases hf with rfl | rfl | rfl
  · exact ⟨_, rfl⟩
  · exact exists_document_count h detail
  · rw [toValue, itemValues_eq]
    refine Format.exists_document_list fun v hv => ?_
    simp only [List.map_map, List.mem_map] at hv
    obtain ⟨u, -, rfl⟩ := hv
    exact ⟨_, rfl⟩

variable {t : ResourceType} {uri : String} {value : String → Value} {x : Representation}

/-- A full form begins with an address. -/
theorem IsFull.toValue_eq (h : x.IsFull t uri value) :
    ∃ v fields, x.toValue = .object (("uri", v) :: fields) := by
  obtain ⟨related, found, -, -, rfl⟩ := h
  obtain ⟨y, r, hy⟩ := Fields.exists_putAll_cons "uri" (.address uri) []
    (t.readableProperties.map (fun p => (p.name, Representation.value (value p.name))) ++
      related ++ found)
  rw [hy]
  exact ⟨_, _, rfl⟩

/-- Where its names differ, a full form has the address and the values of the properties under
their names. -/
theorem IsFull.exists_fields (h : x.IsFull t uri value) (hn : t.fieldNames.Nodup) :
    ∃ fields, x.toValue = .object fields ∧ Fields.get? "uri" fields = some (.text uri) ∧
      ∀ p ∈ t.readableProperties, Fields.get? p.name fields = some (value p.name) := by
  obtain ⟨related, found, hrelated, hfound, rfl⟩ := h
  have hnames : ∀ {α : Type} {name : α → String} {ok : α → Representation → Prop} {xs : List α}
      {fs : List (String × Representation)},
      List.Forall₂ (fun x f => f.1 = name x ∧ ok x f.2) xs fs → fs.map Prod.fst = xs.map name := by
    intro α name ok xs fs h
    induction h with
    | nil => rfl
    | cons hx _ ih => rw [List.map_cons, List.map_cons, hx.1, ih]
  obtain ⟨huri, hnodup⟩ := List.nodup_cons.1 hn
  rw [← hnames hrelated, ← hnames hfound] at huri hnodup
  refine ⟨_, by rw [toValue, fieldValues_eq], ?_, fun p hp => ?_⟩
  · rw [Fields.get?_map, Fields.get?_putAll_of_notMem (by simpa using huri)]
    rfl
  · rw [Fields.get?_map, Fields.get?_putAll_of_mem (x := .value (value p.name))
      (by simpa [Function.comp_def] using hnodup)]
    · rfl
    · exact List.mem_append_left _ (List.mem_append_left _ (List.mem_map_of_mem hp))

end Representation

/-- A link to a collection is shown in every answer if its count is. -/
theorem ResourceType.exists_document_collectionForm (t : ResourceType) (w : Renderer) (k : Int)
    (name : String) {count : Nat} (h : (count : Int) ≤ storeIntegerBound) (detail : Detail) :
    ∃ d, Format.document detail (t.collectionForm w k name count).toValue = .ok d := by
  refine Format.exists_document_object fun f hf => ?_
  simp only [Representation.fieldValues, List.mem_cons, List.not_mem_nil, or_false] at hf
  rcases hf with rfl | rfl
  · exact ⟨_, rfl⟩
  · exact Representation.exists_document_count h detail

namespace Catalog.Sound

variable {c : Catalog} {D : Database} (hD : c.Sound D) (reg : Registry) (w : Renderer)
  (t : ResourceType) (m : Model) (k : Int) (row : Row) (detail : Detail)

include hD

/-- What a relationship leads to is shown in every answer. -/
theorem exists_document_relatedForm (rel : Relationship) : ∃ d,
    Format.document detail (c.relatedForm reg D w t m k row rel).toValue = .ok d := by
  unfold relatedForm
  cases rel.isMany with
  | true =>
    have hcount := hD.length_rowsAt_le m k row rel.name
    exact t.exists_document_collectionForm w k rel.name hcount detail
  | false =>
    dsimp only
    rw [if_neg Bool.false_ne_true]
    split <;> exact ⟨_, rfl⟩

/-- A full form is shown in every answer if the values of the properties are. -/
theorem exists_document_fullForm (hvalue : ∀ p ∈ t.readableProperties,
    ∃ d, Format.document detail (Row.get row p.name) = .ok d) :
    ∃ d, Format.document detail (c.fullForm reg D w t m k row).toValue = .ok d := by
  rw [fullForm, Representation.toValue, Representation.fieldValues_eq]
  refine Format.exists_document_object fun f hf => ?_
  obtain ⟨g, hg, rfl⟩ := List.mem_map.1 hf
  rcases Fields.mem_putAll _ _ hg with hg | hg
  · rw [List.mem_singleton.1 hg]
    exact ⟨_, rfl⟩
  simp only [List.mem_append] at hg
  rcases hg with (hg | hg) | hg
  · obtain ⟨p, hp, rfl⟩ := List.mem_map.1 hg
    exact hvalue p hp
  · obtain ⟨rel, -, rfl⟩ := List.mem_map.1 hg
    exact hD.exists_document_relatedForm reg w t m k row detail rel
  · obtain ⟨finder, -, rfl⟩ := List.mem_map.1 hg
    exact t.exists_document_collectionForm w k finder.name
      (hD.length_foundRows_le m k row finder) detail

end Catalog.Sound

/-- The values of simple columns are shown in every answer. -/
theorem ColumnType.exists_document {type : ColumnType} {v : Value}
    (hv : v = .null ∨ type.keeps v = true) (detail : Detail) :
    ∃ d, Format.document detail v = .ok d := by
  rcases hv with rfl | hv
  · exact ⟨_, rfl⟩
  cases type <;> cases v <;> first | exact ⟨_, rfl⟩ | simp only [keeps, Bool.false_eq_true] at hv
  case integer.int n =>
    obtain ⟨hlow, hhigh⟩ := of_decide_eq_true hv
    exact ⟨_, if_pos (Reading.isShort_of_inStore hlow (Int.le_of_lt hhigh))⟩

namespace Service

/-- The answer tells of no fault and of no errors. -/
structure Accepts (s : Service) (r : Response) : Prop where
  status : r.status < 400
  text : ¬Negotiation.IsErrorText s.settings s.detail r.body

/-- The answer shows a representation, in the format of a suffix. -/
structure Replies (s : Service) (suffix : Option String) (x : Representation) (status : Nat)
    (headers : List (String × String)) (r : Response) : Prop where
  status : r.status = status
  headers : r.headers = headers.filter fun h => h.1.toLower != "content-type"
  body : Negotiation.IsText s.settings s.detail suffix x.toValue r.body

end Service

namespace Act

variable {c : Catalog} {D : Database} {t : Session} {book : RuleBook} {s : Service}

/-- What begins with an address and is shown in every answer is answered in the format that was
chosen. -/
theorem ends_reply (hs : s.settings.CanReply) {suffix : Option String} {format : Value}
    (hformat : Negotiation.choose s.settings suffix = .ok format) {x : Representation} {v : Value}
    {fields : List (String × Value)} (hx : x.toValue = .object (("uri", v) :: fields))
    (hd : ∃ d, Format.document s.detail x.toValue = .ok d) {status : Nat} (hstatus : status < 400)
    (headers : List (String × String)) {E : Fault → Session → Prop} :
    Ends (s.reply format x status headers) t
      (fun r u => u = t ∧ s.Accepts r ∧ s.Replies suffix x status headers r) E := by
  obtain ⟨d, hd⟩ := hd
  obtain ⟨r, hr⟩ := Negotiation.exists_renderAs hs hformat hd status headers
  obtain ⟨hrstatus, hheaders, hbody⟩ := Negotiation.renderAs_eq_ok hformat hr
  rw [Service.reply, monadOfExcept_eq, hr]
  refine ⟨rfl, ⟨hrstatus ▸ hstatus, ?_⟩, hrstatus, hheaders, hbody⟩
  obtain ⟨-, f, -, -, htext⟩ := hbody
  rw [hx] at htext
  exact Negotiation.not_isErrorText htext

/-- A full form of a stored record is answered in the format that was chosen. -/
theorem ends_reply_full (hp : c.Plain) (hD : c.Sound D) (hx : c.Exposed s.registry book)
    (hs : s.settings.CanReply) {e : Entity Ref} {m : Model} {k : Int} {row : Row}
    (he : c.Typed s.registry D t e m k row) {suffix : Option String} {format : Value}
    (hformat : Negotiation.choose s.settings suffix = .ok format) (w : Renderer) {status : Nat}
    (hstatus : status < 400) (headers : List (String × String)) {E : Fault → Session → Prop} :
    Ends (s.reply format (c.fullForm s.registry D w e.type m k row) status headers) t
      (fun r u => u = t ∧ s.Accepts r ∧
        s.Replies suffix (c.fullForm s.registry D w e.type m k row) status headers r) E := by
  obtain ⟨-, hpresents⟩ := hx.presents_of_typeOf he.mem he.type
  obtain ⟨v, fields, hv⟩ := (c.isFull_fullForm s.registry D w e.type m k row).toValue_eq
  refine ends_reply hs hformat hv
    (hD.exists_document_fullForm s.registry w e.type m k row _ fun p hp' => ?_) hstatus headers
  obtain ⟨y, hy, -⟩ := hpresents.column p (List.mem_filter.1 hp').1
  exact ColumnType.exists_document ((hD.cell hp he.mem he.row hy).2.imp And.left id) _

end Act

end Hypermedia
