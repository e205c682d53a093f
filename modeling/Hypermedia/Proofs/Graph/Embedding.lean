import Hypermedia.Proofs.Graph.Gating

/-!
# Embedding expands links

An entity is shown with links to what it leads to, or with the related entities embedded. Both
forms have the same fields in the same order, and a field of the embedded form expands the one of
the form with links (`Renderer.ExpandsField`): a value is the same, a link to a collection has
its members as well, and a link to an entity becomes the form of that entity. What is embedded is
shown with links (`Renderer.EmbedsAs`), so embedding is one level deep, also where entities lead
back to each other.
-/

namespace Hypermedia

variable {R : Type}

/-- What is shown under a name: of several fields of the name the last. -/
def ResourceType.shown? (t : ResourceType) (name : String) : Option ShownField :=
  t.shownFields.reverse.find? fun d => d.name == name

/-- No field is called like the address. -/
def ResourceType.KeepsUri (t : ResourceType) : Prop := ∀ d ∈ t.shownFields, d.name ≠ "uri"

instance (t : ResourceType) : Decidable t.KeepsUri :=
  inferInstanceAs (Decidable (∀ d ∈ t.shownFields, d.name ≠ "uri"))

/-- Does a field show what the entity leads to? -/
def ShownField.IsLeading : ShownField → Prop
  | .property _ => False
  | .relationship _ => True
  | .finder _ => True

/-! ## Fields by their names -/

namespace ResourceType

variable {t : ResourceType} {uri name : String} {form : ShownField → Representation}
  {d : ShownField}

theorem shown?_mem (h : t.shown? name = some d) : d ∈ t.shownFields :=
  List.mem_reverse.1 (List.mem_of_find?_eq_some h)

/-- A full form has under a name what is shown there. -/
theorem get?_formFields (h : t.shown? name = some d) :
    Fields.get? name (t.formFields uri form) = some (form d) := by
  have hget : Fields.get? name (t.shownFields.map fun d => (d.name, form d)).reverse =
      some (form d) := by
    have hfind : t.shownFields.reverse.find?
        ((fun kv : String × Representation => kv.1 == name) ∘ fun d => (d.name, form d)) =
        some d := h
    rw [← List.map_reverse, Fields.get?, List.find?_map, hfind]
    rfl
  rw [formFields, Fields.get?_putAll, hget, Option.some_or]

/-- Where no field is called so, the address is under its name. -/
theorem get?_uri_formFields (h : t.KeepsUri) :
    Fields.get? "uri" (t.formFields uri form) = some (.address uri) := by
  rw [formFields, Fields.get?_putAll_of_notMem]
  · rfl
  · rw [List.map_map, List.mem_map]
    rintro ⟨d, hd, hname⟩
    exact h d hd hname

/-- Properties are shown first, so what is shown under the name of a relationship or of a finder
is one. -/
theorem exists_shown?_of_isLeading (hd : d ∈ t.shownFields) (hleading : d.IsLeading) :
    ∃ d', t.shown? d.name = some d' ∧ d'.IsLeading := by
  obtain ⟨later, hlater⟩ : ∃ later : List ShownField,
      later = t.readableRelationships.map .relationship ++ t.finders.map .finder := ⟨_, rfl⟩
  have happend : t.shownFields = t.readableProperties.map .property ++ later := by
    rw [shownFields, List.append_assoc, hlater]
  have hmem : d ∈ later := by
    rw [happend] at hd
    rcases List.mem_append.1 hd with hd | hd
    · obtain ⟨p, -, rfl⟩ := List.mem_map.1 hd
      exact hleading.elim
    · exact hd
  obtain ⟨d', hd'⟩ : ∃ d', later.reverse.find? (fun x => x.name == d.name) = some d' :=
    Option.isSome_iff_exists.1 (List.find?_isSome.2 ⟨d, List.mem_reverse.2 hmem, by simp⟩)
  refine ⟨d', ?_, ?_⟩
  · rw [shown?, happend, List.reverse_append, List.find?_append, hd', Option.some_or]
  · have hmem' := List.mem_reverse.1 (List.mem_of_find?_eq_some hd')
    rw [hlater, List.mem_append, List.mem_map, List.mem_map] at hmem'
    rcases hmem' with ⟨rel, -, rfl⟩ | ⟨f, -, rfl⟩
    · trivial
    · trivial

end ResourceType

/-! ## What is embedded -/

variable (w : Renderer) (g : ResourceGraph (Except Fault) R)

/-- An entity leads to another by a readable relationship or by a finder. -/
inductive Entity.LeadsTo (e : Entity R) : Entity R → Prop
  | many {rel c x} : rel ∈ e.type.readableRelationships → rel.isMany = true →
      g.relatedMany e rel = .ok c → x ∈ c.entities → LeadsTo e x
  | one {rel x} : rel ∈ e.type.readableRelationships → rel.isMany = false →
      g.relatedOne e rel = .ok (some x) → LeadsTo e x
  | found {f c x} : f ∈ e.type.finders → g.found e f = .ok c → x ∈ c.entities → LeadsTo e x

theorem Entity.LeadsTo.isTyped {g : ResourceGraph (Except Fault) R} {e x : Entity R}
    (h : e.LeadsTo g x) : x.IsTyped g := by
  cases h with
  | many _ _ hc hx => exact isTyped_of_relatedMany hc x hx
  | one _ _ hx => exact isTyped_of_relatedOne hx
  | found _ hc hx => exact isTyped_of_found hc x hx

/-- The form in which an entity is embedded is the one with links. If the entity is valid it has
the address, and only links to what the entity leads to; else it is the form of the errors. -/
structure Renderer.EmbedsAs (x : Entity R) (form : Representation) : Prop where
  linked : w.linked g x .default = .ok form
  valid : x.valid g [.default] = .ok true → ∃ uri fields, x.uri g w.root w.ext = .ok uri ∧
    form = .object fields ∧ Fields.get? "uri" fields = some (.address uri) ∧
    ∀ d ∈ x.type.shownFields, d.IsLeading → ∃ y isMany,
      Fields.get? d.name fields = some y ∧ y.IsLink isMany
  invalid : x.valid g [.default] = .ok false → ∃ es, x.errors g .default = .ok es ∧ es ≠ [] ∧
    form = .ofErrors es

/-- The embedded form of a collection has the address and the count of the link to it, and the
forms of the members in their order. -/
def Renderer.Lists (c : Collection R) (link form : Representation) : Prop :=
  ∃ uri items, c.uri g w.root w.ext = .ok uri ∧
    link = .object [("uri", .address uri), ("count", .value (.int c.count))] ∧
    form = .object
      [("uri", .address uri), ("count", .value (.int c.count)), ("items", .list items)] ∧
    List.Forall₂ (w.EmbedsAs g) c.entities items

/-- What is shown in a field with links and what is shown there with entities embedded. -/
inductive Renderer.ExpandsField (e : Entity R) :
    ShownField → (link form : Representation) → Prop
  | property {p v} : g.storage.value e.record p.name = .ok v →
      ExpandsField e (.property p) (.value v) (.value v)
  | many {rel c link form} : rel.isMany = true → g.relatedMany e rel = .ok c →
      w.Lists g c link form → ExpandsField e (.relationship rel) link form
  | nothing {rel} : rel.isMany = false → g.relatedOne e rel = .ok none →
      ExpandsField e (.relationship rel) (.value .null) (.value .null)
  | one {rel x uri form} : rel.isMany = false → g.relatedOne e rel = .ok (some x) →
      x.uri g w.root w.ext = .ok uri → w.EmbedsAs g x form →
      ExpandsField e (.relationship rel) (.object [("uri", .address uri)]) form
  | found {f c link form} : g.found e f = .ok c → w.Lists g c link form →
      ExpandsField e (.finder f) link form

/-- The embedded form of an entity has the fields of the form with links, in the same order, and
expands each of them. -/
structure Renderer.Expands (e : Entity R) (link form : List (String × Representation)) :
    Prop where
  names : form.map Prod.fst = link.map Prod.fst
  mem_names : ∀ name, name ∈ link.map Prod.fst → name = "uri" ∨ ∃ d, e.type.shown? name = some d
  uri : ∃ uri, e.uri g w.root w.ext = .ok uri ∧ Fields.get? "uri" link = some (.address uri) ∧
    Fields.get? "uri" form = some (.address uri)
  field : ∀ name d, e.type.shown? name = some d → ∃ x y, Fields.get? name link = some x ∧
    Fields.get? name form = some y ∧ w.ExpandsField g e d x y

variable {w g} {e : Entity R}

namespace Renderer

/-! ## Entities with links -/

theorem isLink_of_fieldForm {d : ShownField} {x : Representation} (hleading : d.IsLeading)
    (h : fieldForm g (w.entityLink g) (w.collectionLink g) e d = .ok x) :
    ∃ isMany, x.IsLink isMany := by
  have hcollection : ∀ c : Collection R, w.collectionLink g c = .ok x → x.IsLink true := by
    intro c hc
    obtain ⟨uri, -, hx⟩ := bind_eq_ok.1 hc
    exact ⟨uri, c.count, (pure_eq_ok.1 hx).symm⟩
  cases d with
  | property => exact hleading.elim
  | finder f =>
    obtain ⟨c, -, hc⟩ := bind_eq_ok.1 h
    exact ⟨true, hcollection c hc⟩
  | relationship rel =>
    cases hmany : rel.isMany with
    | true =>
      rw [fieldForm_many hmany] at h
      obtain ⟨c, -, hc⟩ := bind_eq_ok.1 h
      exact ⟨true, hcollection c hc⟩
    | false =>
      rw [fieldForm_one hmany] at h
      obtain ⟨o, -, ho⟩ := bind_eq_ok.1 h
      cases o with
      | none => exact ⟨false, .inl (pure_eq_ok.1 ho).symm⟩
      | some y =>
        obtain ⟨uri, -, hx⟩ := bind_eq_ok.1 ho
        exact ⟨false, .inr ⟨uri, (pure_eq_ok.1 hx).symm⟩⟩

/-- With links an entity is shown as it is embedded. -/
theorem embedsAs_of_linked {x : Entity R} {form : Representation} (hkeeps : x.type.KeepsUri)
    (h : w.linked g x .default = .ok form) : w.EmbedsAs g x form := by
  obtain ⟨es, hes, hform⟩ := gated_eq_ok h
  have herrors : x.errors g .default = .ok es := by
    obtain ⟨es', hes', heq⟩ := bind_eq_ok.1 hes
    rw [if_pos rfl, pure_eq_ok] at heq
    rw [hes', heq]
  have hvalid : x.valid g [.default] = .ok es.isEmpty := by
    refine bind_eq_ok.2 ⟨es, herrors, ?_⟩
    cases es.isEmpty <;> rfl
  refine ⟨h, fun hok => ?_, fun hno => ?_⟩
  · have hnil : es = [] := by simpa using Except.ok.inj (hvalid.symm.trans hok)
    rcases hform with ⟨hne, -⟩ | ⟨-, hfull⟩
    · exact absurd hnil hne
    obtain ⟨uri, link, huri, hlink, rfl⟩ := exists_form_of_full hfull
    refine ⟨uri, _, huri, rfl, ResourceType.get?_uri_formFields hkeeps, fun d hd hleading => ?_⟩
    obtain ⟨d', hshown, hleading'⟩ := ResourceType.exists_shown?_of_isLeading hd hleading
    obtain ⟨isMany, hisLink⟩ :=
      isLink_of_fieldForm hleading' (hlink d' (ResourceType.shown?_mem hshown))
    exact ⟨_, isMany, ResourceType.get?_formFields hshown, hisLink⟩
  · have hne : es ≠ [] := by simpa using Except.ok.inj (hvalid.symm.trans hno)
    rcases hform with ⟨-, rfl⟩ | ⟨hnil, -⟩
    · exact ⟨es, herrors, hne, rfl⟩
    · exact absurd hnil hne

/-! ## Entities with others embedded -/

theorem lists_of_listing {c : Collection R} {link form : Representation}
    (hkeeps : ∀ x ∈ c.entities, x.type.KeepsUri) (hlink : w.collectionLink g c = .ok link)
    (hform : w.listing g (fun x => w.linked g x .default) c = .ok form) :
    w.Lists g c link form := by
  obtain ⟨uri, huri, hlink⟩ := bind_eq_ok.1 hlink
  obtain ⟨items, hitems, hform⟩ := bind_eq_ok.1 hform
  obtain ⟨uri', huri', hform⟩ := bind_eq_ok.1 hform
  obtain rfl := Except.ok.inj (huri.symm.trans huri')
  refine ⟨uri, items, huri, (pure_eq_ok.1 hlink).symm, (pure_eq_ok.1 hform).symm, ?_⟩
  have hmembers := (mapM_eq_ok.1 hitems).flip
  exact (forall₂_imp_mem hmembers fun item x hx h => embedsAs_of_linked (hkeeps x hx) h).flip

/-- Each field of the embedded form expands that of the form with links. -/
theorem expandsField_of_forms {d : ShownField} {x y : Representation}
    (hd : d ∈ e.type.shownFields) (hkeeps : ∀ x, e.LeadsTo g x → x.type.KeepsUri)
    (hx : fieldForm g (w.entityLink g) (w.collectionLink g) e d = .ok x)
    (hy : fieldForm g (fun z => w.linked g z .default)
      (w.listing g fun z => w.linked g z .default) e d = .ok y) : w.ExpandsField g e d x y := by
  simp only [ResourceType.shownFields, List.mem_append, List.mem_map] at hd
  rcases hd with (⟨p, hp, rfl⟩ | ⟨rel, hrel, rfl⟩) | ⟨f, hf, rfl⟩
  · obtain ⟨v, hv, hx⟩ := bind_eq_ok.1 hx
    obtain ⟨v', hv', hy⟩ := bind_eq_ok.1 hy
    obtain rfl := Except.ok.inj (hv.symm.trans hv')
    obtain rfl := pure_eq_ok.1 hx
    obtain rfl := pure_eq_ok.1 hy
    exact .property hv
  · cases hmany : rel.isMany with
    | true =>
      rw [fieldForm_many hmany] at hx hy
      obtain ⟨c, hc, hx⟩ := bind_eq_ok.1 hx
      obtain ⟨c', hc', hy⟩ := bind_eq_ok.1 hy
      obtain rfl := Except.ok.inj (hc.symm.trans hc')
      exact .many hmany hc
        (lists_of_listing (fun z hz => hkeeps z (.many hrel hmany hc hz)) hx hy)
    | false =>
      rw [fieldForm_one hmany] at hx hy
      obtain ⟨o, ho, hx⟩ := bind_eq_ok.1 hx
      obtain ⟨o', ho', hy⟩ := bind_eq_ok.1 hy
      obtain rfl := Except.ok.inj (ho.symm.trans ho')
      cases o with
      | none =>
        obtain rfl := pure_eq_ok.1 hx
        obtain rfl := pure_eq_ok.1 hy
        exact .nothing hmany ho
      | some z =>
        obtain ⟨uri, huri, hx⟩ := bind_eq_ok.1 hx
        obtain rfl := pure_eq_ok.1 hx
        exact .one hmany ho huri (embedsAs_of_linked (hkeeps z (.one hrel hmany ho)) hy)
  · obtain ⟨c, hc, hx⟩ := bind_eq_ok.1 hx
    obtain ⟨c', hc', hy⟩ := bind_eq_ok.1 hy
    obtain rfl := Except.ok.inj (hc.symm.trans hc')
    exact .found hc (lists_of_listing (fun z hz => hkeeps z (.found hf hc hz)) hx hy)

theorem expands_formFields {uri : String} {link form : ShownField → Representation}
    (huri : e.uri g w.root w.ext = .ok uri) (hkeeps : e.type.KeepsUri)
    (h : ∀ d ∈ e.type.shownFields, w.ExpandsField g e d (link d) (form d)) :
    w.Expands g e (e.type.formFields uri link) (e.type.formFields uri form) where
  names := Fields.map_fst_putAll_congr (by simp) rfl
  mem_names name hname := by
    obtain ⟨f, hf, rfl⟩ := List.mem_map.1 hname
    rcases Fields.mem_putAll _ _ hf with hf | hf
    · exact .inl (by rw [List.mem_singleton.1 hf])
    · obtain ⟨d, hd, rfl⟩ := List.mem_map.1 hf
      refine .inr (Option.isSome_iff_exists.1 (List.find?_isSome.2 ⟨d, ?_, by simp⟩))
      exact List.mem_reverse.2 hd
  uri := ⟨uri, huri, ResourceType.get?_uri_formFields hkeeps,
    ResourceType.get?_uri_formFields hkeeps⟩
  field _ d hshown := ⟨link d, form d, ResourceType.get?_formFields hshown,
    ResourceType.get?_formFields hshown, h d (ResourceType.shown?_mem hshown)⟩

/-- The embedded form of a valid entity expands its form with links, if no field of its type and
of the types of what it leads to is called like the address. Where the storage answers, both forms
can be told. -/
theorem embedded_expands_linked (w : Renderer) (g : ResourceGraph (Except Fault) R) (e : Entity R)
    (c : Context) (hvalid : e.valid g [.default, c] = .ok true) (hkeeps : e.type.KeepsUri)
    (hleads : ∀ x, e.LeadsTo g x → x.type.KeepsUri) :
    (∀ x y, w.entity g e c false = .ok x → w.entity g e c true = .ok y →
      ∃ link form, x = .object link ∧ y = .object form ∧ w.Expands g e link form) ∧
    (g.Answers → e.Answers g → ∀ embed, ∃ x, w.entity g e c embed = .ok x) := by
  refine ⟨fun x y hx hy => ?_, fun hg he => exists_entity w hg he c⟩
  have hfull : ∀ {one many} {z : Representation}, w.gated g one many e c = .ok z →
      w.full g one many e = .ok z := fun hz =>
    (gated_of_valid hvalid hz).elim (fun h => nomatch h.1) And.right
  obtain ⟨uri, link, huri, hlink, rfl⟩ := exists_form_of_full (hfull hx)
  obtain ⟨uri', form, huri', hform, rfl⟩ := exists_form_of_full (hfull hy)
  obtain rfl := Except.ok.inj (huri.symm.trans huri')
  exact ⟨_, _, rfl, rfl, expands_formFields huri hkeeps fun d hd =>
    expandsField_of_forms hd hleads (hlink d hd) (hform d hd)⟩

/-- The second task is shown with the first one embedded, which has errors only; the tasks lead
back to each other. -/
theorem embedded_expands_linked_twoTasks : ∃ link form,
    ({} : Renderer).entity twoTasks ⟨taskType, true, []⟩ .update false = .ok (.object link) ∧
    ({} : Renderer).entity twoTasks ⟨taskType, true, []⟩ .update true = .ok (.object form) ∧
    form.map Prod.fst = link.map Prod.fst ∧
    Fields.get? "whole" link = some (.object [("uri", .address "/tasks/0")]) ∧
    ∃ es, Fields.get? "whole" form = some (.ofErrors es) ∧ es ≠ [] := by
  have hkeeps : taskType.KeepsUri := by decide
  have he : (⟨taskType, true, []⟩ : Entity Bool).IsTyped twoTasks := ⟨List.mem_cons_self, rfl⟩
  obtain ⟨hexpands, htold⟩ := embedded_expands_linked {} twoTasks ⟨taskType, true, []⟩ .update rfl
    hkeeps (fun x hx => (List.mem_singleton.1 hx.isTyped.type_mem : x.type = taskType) ▸ hkeeps)
  obtain ⟨x, hx⟩ := htold answers_twoTasks (answers_twoTasks _ he) false
  obtain ⟨y, hy⟩ := htold answers_twoTasks (answers_twoTasks _ he) true
  obtain ⟨link, form, rfl, rfl, h⟩ := hexpands x y hx hy
  refine ⟨link, form, hx, hy, h.names, ?_⟩
  obtain ⟨x, y, hlink, hform, hfield⟩ := h.field "whole" _ rfl
  cases hfield with
  | many hmany => cases hmany
  | nothing _ hno => cases hno
  | one _ hone huri hembeds =>
    obtain rfl := Option.some.inj (Except.ok.inj hone)
    obtain ⟨es, -, hne, rfl⟩ := hembeds.invalid rfl
    have hzero : (⟨taskType, false, []⟩ : Entity Bool).uri twoTasks "" none = .ok "/tasks/0" := by
      decide +kernel
    obtain rfl := Except.ok.inj (hzero.symm.trans huri)
    exact ⟨hlink, es, hform, hne⟩

end Renderer

end Hypermedia
