import Hypermedia.Graph.Shelf
import Hypermedia.Proofs.Graph.Embedding

/-!
# Fields that shadow others

The form of an entity with links is one list of fields by name: the address, and then everything
that the type of the entity shows. Each field holds the value or the link of what is shown in it
(`Renderer.LinksField`), but no one compares the names: of several fields of one name only the
last is there, and one that is called like the address takes the place of the address
(`uri_shadowed`). The form has all fields in their order exactly if the names differ
(`Renderer.linked_eq_iff_nodup`).
-/

namespace Hypermedia

namespace Fields

variable {α : Type}

/-- New names are bound at the end, in order. -/
theorem putAll_of_nodup {fields new : List (String × α)}
    (h : ((fields ++ new).map Prod.fst).Nodup) : putAll fields new = fields ++ new := by
  induction new generalizing fields with
  | nil => exact (List.append_nil fields).symm
  | cons f new ih =>
    have hnotMem : f.1 ∉ fields.map Prod.fst := by
      rw [List.map_append, List.nodup_append] at h
      exact fun hmem => h.2.2 f.1 hmem f.1 (by simp) rfl
    rw [putAll, List.foldl_cons, put_of_notMem hnotMem]
    rw [List.append_cons] at h
    exact (ih h).trans (List.append_cons fields f new).symm

theorem nodup_putAll {fields : List (String × α)} (h : (fields.map Prod.fst).Nodup)
    (new : List (String × α)) : ((putAll fields new).map Prod.fst).Nodup := by
  induction new generalizing fields with
  | nil => exact h
  | cons f new ih => exact ih (nodup_put h)

end Fields

variable {R : Type}

namespace ResourceType

variable {t : ResourceType} {uri : String} {form : ShownField → Representation}

theorem nodup_formFields : ((t.formFields uri form).map Prod.fst).Nodup := by
  have hone : ([("uri", Representation.address uri)].map Prod.fst).Nodup :=
    List.nodup_singleton "uri"
  exact Fields.nodup_putAll hone _

/-- A full form has all fields in their order exactly if their names differ, also from that of
the address. -/
theorem formFields_eq_iff_nodup :
    t.formFields uri form =
        ("uri", .address uri) :: t.shownFields.map (fun d => (d.name, form d)) ↔
      ("uri" :: t.shownFields.map ShownField.name).Nodup := by
  have hnames : (("uri", Representation.address uri) ::
      t.shownFields.map fun d => (d.name, form d)).map Prod.fst =
      "uri" :: t.shownFields.map ShownField.name := by simp
  constructor
  · intro h
    rw [← hnames, ← h]
    exact nodup_formFields
  · intro h
    exact Fields.putAll_of_nodup (by rw [List.singleton_append, hnames]; exact h)

end ResourceType

namespace Renderer

variable (w : Renderer) (g : ResourceGraph (Except Fault) R) (e : Entity R)

/-- What the form of an entity with links has in a field: the value of a property, a link to the
collection or to the entity that a relationship leads to, nothing if it leads nowhere, and a link
to the collection that a finder finds. -/
inductive LinksField : ShownField → Representation → Prop
  | property {p v} : g.storage.value e.record p.name = .ok v → LinksField (.property p) (.value v)
  | many {rel c uri} : rel.isMany = true → g.relatedMany e rel = .ok c →
      c.uri g w.root w.ext = .ok uri →
      LinksField (.relationship rel)
        (.object [("uri", .address uri), ("count", .value (.int c.count))])
  | nothing {rel} : rel.isMany = false → g.relatedOne e rel = .ok none →
      LinksField (.relationship rel) (.value .null)
  | one {rel x uri} : rel.isMany = false → g.relatedOne e rel = .ok (some x) →
      x.uri g w.root w.ext = .ok uri →
      LinksField (.relationship rel) (.object [("uri", .address uri)])
  | found {f c uri} : g.found e f = .ok c → c.uri g w.root w.ext = .ok uri →
      LinksField (.finder f) (.object [("uri", .address uri), ("count", .value (.int c.count))])

variable {w g e}

theorem linksField_of_fieldForm {d : ShownField} {x : Representation}
    (h : fieldForm g (w.entityLink g) (w.collectionLink g) e d = .ok x) : w.LinksField g e d x := by
  cases d with
  | property p =>
    obtain ⟨v, hv, h⟩ := bind_eq_ok.1 h
    obtain rfl := pure_eq_ok.1 h
    exact .property hv
  | finder f =>
    obtain ⟨c, hc, h⟩ := bind_eq_ok.1 h
    obtain ⟨uri, huri, h⟩ := bind_eq_ok.1 h
    obtain rfl := pure_eq_ok.1 h
    exact .found hc huri
  | relationship rel =>
    cases hmany : rel.isMany with
    | true =>
      rw [fieldForm_many hmany] at h
      obtain ⟨c, hc, h⟩ := bind_eq_ok.1 h
      obtain ⟨uri, huri, h⟩ := bind_eq_ok.1 h
      obtain rfl := pure_eq_ok.1 h
      exact .many hmany hc huri
    | false =>
      rw [fieldForm_one hmany] at h
      obtain ⟨o, ho, h⟩ := bind_eq_ok.1 h
      cases o with
      | none =>
        obtain rfl := pure_eq_ok.1 h
        exact .nothing hmany ho
      | some x =>
        obtain ⟨uri, huri, h⟩ := bind_eq_ok.1 h
        obtain rfl := pure_eq_ok.1 h
        exact .one hmany ho huri

/-- The form of a valid entity with links has each name once, that of the address first, and holds
under the name of a field the value or the link of the last field of that name. It has the
address first and then one field for each that is shown, in order, exactly if no two of them have
one name and none is called like the address. Where the storage answers, there is such a form. -/
theorem linked_eq_iff_nodup (w : Renderer) (g : ResourceGraph (Except Fault) R) (e : Entity R)
    (c : Context) (hvalid : e.valid g [.default, c] = .ok true) :
    (∀ x, w.entity g e c false = .ok x →
      ∃ uri fields, ∃ form : ShownField → Representation, e.uri g w.root w.ext = .ok uri ∧
        (∀ d ∈ e.type.shownFields, w.LinksField g e d (form d)) ∧ x = .object fields ∧
        (fields.map Prod.fst).head? = some "uri" ∧ (fields.map Prod.fst).Nodup ∧
        (∀ name d, e.type.shown? name = some d → Fields.get? name fields = some (form d)) ∧
        (fields = ("uri", .address uri) :: e.type.shownFields.map (fun d => (d.name, form d)) ↔
          ("uri" :: e.type.shownFields.map ShownField.name).Nodup)) ∧
    (g.Answers → e.Answers g → ∃ x, w.entity g e c false = .ok x) := by
  refine ⟨fun x hx => ?_, fun hg he => exists_entity w hg he c false⟩
  rcases gated_of_valid hvalid hx with ⟨h, -⟩ | ⟨-, hfull⟩
  · cases h
  obtain ⟨uri, form, huri, hform, rfl⟩ := exists_form_of_full hfull
  obtain ⟨y, rest, hfirst⟩ := Fields.exists_putAll_cons "uri" (Representation.address uri) []
    (e.type.shownFields.map fun d => (d.name, form d))
  refine ⟨uri, _, form, huri, fun d hd => linksField_of_fieldForm (hform d hd), rfl, ?_, ?_,
    fun name d hd => ResourceType.get?_formFields hd, ResourceType.formFields_eq_iff_nodup⟩
  · rw [ResourceType.formFields, hfirst]
    rfl
  · exact ResourceType.nodup_formFields

/-- The form of the second task has its title, who signed it, and links to its parts and to the
whole, in this order and after its address. -/
theorem linked_eq_iff_nodup_twoTasks : ∃ fields,
    (⟨taskType, true, []⟩ : Entity Bool).valid twoTasks [.default, .update] = .ok true ∧
    ({} : Renderer).entity twoTasks ⟨taskType, true, []⟩ .update false = .ok (.object fields) ∧
    fields.map Prod.fst = ["uri", "title", "by", "parts", "whole"] := by
  have hvalid : (⟨taskType, true, []⟩ : Entity Bool).valid twoTasks [.default, .update] =
      .ok true := rfl
  obtain ⟨hform, htold⟩ := linked_eq_iff_nodup {} twoTasks ⟨taskType, true, []⟩ .update hvalid
  obtain ⟨x, hx⟩ := htold answers_twoTasks (answers_twoTasks _ ⟨List.mem_cons_self, rfl⟩)
  obtain ⟨uri, fields, form, -, -, rfl, -, -, -, hiff⟩ := hform x hx
  refine ⟨fields, hvalid, hx, ?_⟩
  rw [hiff.2 (by decide)]
  rfl

/-- A page with a property that is called like the address. -/
def pageType : ResourceType where
  name := "Page"
  properties := [{ name := "uri" }, { name := "text" }]
  plural := some "pages"

/-- One page on a shelf, with the type as it is registered. -/
def onePage : ResourceGraph (Except Fault) String where
  registry := (Registry.empty.register pageType).1
  storage := Shelf.storage [{
    key := "p", model := none, types := ["Page"]
    attributes := [("id", .value (.int 1)), ("uri", .value (.text "x")),
      ("text", .value (.text "y"))] }]
  judge := fun _ _ => .ok .null

/-- The property takes the place of the address: the page is registered and valid and has an
address, which its form does not show. -/
theorem uri_shadowed :
    (Registry.empty.register pageType).2 = .ok pageType ∧
    (⟨pageType, "p", []⟩ : Entity String).valid onePage [.default] = .ok true ∧
    (⟨pageType, "p", []⟩ : Entity String).uri onePage "" none = .ok "/pages/1" ∧
    ({} : Renderer).entity onePage ⟨pageType, "p", []⟩ .default false =
      .ok (.object [("uri", .value (.text "x")), ("text", .value (.text "y"))]) := by
  refine ⟨?_, ?_, ?_, ?_⟩
  · rfl
  · rfl
  · decide +kernel
  · rfl

end Renderer

end Hypermedia
