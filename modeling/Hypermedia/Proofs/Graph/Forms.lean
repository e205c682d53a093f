import Hypermedia.Proofs.Graph.Privacy
import Hypermedia.Proofs.Validation.Merging

/-!
# Full forms, field by field

The full form of an entity has a field for its address and then one for everything that its type
shows: the readable properties, the readable relationships and the finders
(`ResourceType.shownFields`, `Renderer.full_eq`). Where a storage answers what is asked about
its entities (`ResourceGraph.Answers`), the errors of an entity and its full form can be told
(`Entity.Answers.exists_errors`, `Renderer.exists_full`).
-/

namespace Hypermedia

/-- What the full form of an entity shows in a field. -/
inductive ShownField where
  | property (p : Property)
  | relationship (rel : Relationship)
  | finder (f : Finder)

/-- The name of a field. -/
def ShownField.name : ShownField → String
  | .property p => p.name
  | .relationship rel => rel.name
  | .finder f => f.name

/-- What the full form of an entity of a type shows, in order. -/
def ResourceType.shownFields (t : ResourceType) : List ShownField :=
  t.readableProperties.map .property ++ t.readableRelationships.map .relationship ++
    t.finders.map .finder

theorem ResourceType.property_mem_shownFields {t : ResourceType} {p : Property}
    (hp : p ∈ t.readableProperties) : .property p ∈ t.shownFields :=
  List.mem_append_left _ (List.mem_append_left _ (List.mem_map_of_mem hp))

variable {R : Type}

/-- The fields of a full form: one for the address, and one for everything that is shown. Of
several fields of one name the last is there. -/
def ResourceType.formFields (t : ResourceType) (uri : String)
    (form : ShownField → Representation) : List (String × Representation) :=
  Fields.putAll [("uri", .address uri)] (t.shownFields.map fun d => (d.name, form d))

/-- A link to a collection, or a link to one entity or to none. -/
def Representation.IsLink : (isMany : Bool) → Representation → Prop
  | true, x => ∃ (uri : String) (n : Nat),
    x = .object [("uri", .address uri), ("count", .value (.int n))]
  | false, x => x = .value .null ∨ ∃ uri, x = .object [("uri", .address uri)]

/-- A full form of an entity under an address: its values, and whatever forms of what it leads
to. -/
def Representation.IsFullOf (g : ResourceGraph (Except Fault) R) (e : Entity R) (uri : String)
    (x : Representation) : Prop :=
  ∃ form, x = .object (e.type.formFields uri form) ∧ ∀ p ∈ e.type.readableProperties, ∃ v,
    g.storage.value e.record p.name = .ok v ∧ form (.property p) = .value v

/-- A full form is no representation of errors. -/
theorem Representation.IsFullOf.ne_ofErrors {g : ResourceGraph (Except Fault) R} {e : Entity R}
    {uri : String} {x : Representation} (h : x.IsFullOf g e uri) (es : Errors) :
    x ≠ .ofErrors es := by
  rintro rfl
  obtain ⟨form, hform, -⟩ := h
  obtain ⟨y, r, hfields⟩ := Fields.exists_putAll_cons "uri" (Representation.address uri) []
    (e.type.shownFields.map fun d => (d.name, form d))
  rw [ResourceType.formFields, hfields] at hform
  simp [Representation.ofErrors] at hform

namespace Renderer

variable (w : Renderer) (g : ResourceGraph (Except Fault) R)
  (one : Entity R → Except Fault Representation)
  (many : Collection R → Except Fault Representation) (e : Entity R)

/-- The form of a field, with these forms of what it leads to. -/
def fieldForm : ShownField → Except Fault Representation
  | .property p => do
    let v ← g.storage.value e.record p.name
    pure (.value v)
  | .relationship rel =>
    if rel.isMany then do
      let c ← g.relatedMany e rel
      many c
    else do
      let o ← g.relatedOne e rel
      o.elim (pure (.value .null)) one
  | .finder f => do
    let c ← g.found e f
    many c

variable {g one many e} in
theorem fieldForm_many {rel : Relationship} (h : rel.isMany = true) :
    fieldForm g one many e (.relationship rel) = g.relatedMany e rel >>= many := by
  rw [fieldForm, if_pos h]

variable {g one many e} in
theorem fieldForm_one {rel : Relationship} (h : rel.isMany = false) :
    fieldForm g one many e (.relationship rel) =
      g.relatedOne e rel >>= fun o => o.elim (pure (.value .null)) one := by
  rw [fieldForm, if_neg (by simp [h])]

/-- The full form is made of the forms of the fields. -/
theorem full_eq : w.full g one many e = (do
    let uri ← e.uri g w.root w.ext
    let fields ← e.type.shownFields.mapM fun d => do
      let x ← fieldForm g one many e d
      pure (d.name, x)
    pure (.object (Fields.putAll [("uri", .address uri)] fields))) := by
  unfold full
  simp only [ResourceType.shownFields, List.mapM_append, List.mapM_map, Function.comp_def,
    bind_assoc, pure_bind, ShownField.name]
  refine bind_congr fun uri => bind_congr_ok ?_ fun values _ => bind_congr_ok ?_ fun related _ =>
    bind_congr_ok ?_ fun found _ => rfl
  · simp only [fieldForm, bind_assoc, pure_bind]
  · refine mapM_congr_mem fun rel _ => ?_
    cases hm : rel.isMany with
    | true => simp only [fieldForm_many hm, bind_assoc, if_true]
    | false =>
      simp only [fieldForm_one hm, bind_assoc, Bool.false_eq_true, if_false]
      refine bind_congr fun o => ?_
      cases o <;> rfl
  · simp only [fieldForm, bind_assoc]

variable {w g one many e}

/-- Where the address and the forms of the fields can be told, so can the full form. -/
theorem full_eq_ok {uri : String} {form : ShownField → Representation}
    (huri : e.uri g w.root w.ext = .ok uri)
    (h : ∀ d ∈ e.type.shownFields, fieldForm g one many e d = .ok (form d)) :
    w.full g one many e = .ok (.object (e.type.formFields uri form)) := by
  have hfields : e.type.shownFields.mapM (fun d => do
      let x ← fieldForm g one many e d
      pure (d.name, x)) = .ok (e.type.shownFields.map fun d => (d.name, form d)) := by
    refine mapM_eq_ok.2 (List.forall₂_map_right_iff.2 (List.forall₂_same.2 fun d hd => ?_))
    rw [h d hd]
    rfl
  rw [full_eq, huri, hfields]
  rfl

/-- A full form that can be told is made of the address and of the forms of the fields. -/
theorem exists_form_of_full {x : Representation} (h : w.full g one many e = .ok x) :
    ∃ uri form, e.uri g w.root w.ext = .ok uri ∧
      (∀ d ∈ e.type.shownFields, fieldForm g one many e d = .ok (form d)) ∧
      x = .object (e.type.formFields uri form) := by
  have hfull := h
  rw [full_eq] at h
  obtain ⟨uri, huri, h⟩ := bind_eq_ok.1 h
  obtain ⟨fields, hfields, -⟩ := bind_eq_ok.1 h
  have htold : ∀ d ∈ e.type.shownFields, ∃ y, fieldForm g one many e d = .ok y := fun d hd => by
    obtain ⟨f, -, hf⟩ := exists_of_forall₂_left (mapM_eq_ok.1 hfields) hd
    obtain ⟨y, hy, -⟩ := bind_eq_ok.1 hf
    exact ⟨y, hy⟩
  choose! form hform using htold
  exact ⟨uri, form, huri, hform, Except.ok.inj (hfull.symm.trans (full_eq_ok huri hform))⟩

/-- What is told in full is the full form of the entity under its address. -/
theorem isFullOf_of_full {x : Representation} (h : w.full g one many e = .ok x) :
    ∃ uri, e.uri g w.root w.ext = .ok uri ∧ x.IsFullOf g e uri := by
  obtain ⟨uri, form, huri, hform, rfl⟩ := exists_form_of_full h
  refine ⟨uri, huri, form, rfl, fun p hp => ?_⟩
  obtain ⟨v, hv, h⟩ := bind_eq_ok.1 (hform _ (ResourceType.property_mem_shownFields hp))
  exact ⟨v, hv, (pure_eq_ok.1 h).symm⟩

end Renderer

/-! ## Storages that answer -/

variable {g : ResourceGraph (Except Fault) R}

/-- Everything that is asked about an entity is answered, in the form that its type declares:
its id, the values of its properties, what its relationships and finders lead to, and what its
rules report. -/
structure Entity.Answers (g : ResourceGraph (Except Fault) R) (e : Entity R) : Prop where
  identity : ∃ id, g.storage.identity e.record = .ok id
  value : ∀ p ∈ e.type.properties, ∃ v, g.storage.value e.record p.name = .ok v
  target : ∀ rel ∈ e.type.relationships, ∃ t, g.registry.resolve rel.target = .ok t
  many : ∀ rel ∈ e.type.relationships, rel.isMany = true →
    ∃ rs, g.storage.related e.record rel = .ok (.many rs)
  one : ∀ rel ∈ e.type.relationships, rel.isMany = false →
    g.storage.related e.record rel = .ok .nothing ∨
      ∃ r, g.storage.related e.record rel = .ok (.one r)
  find : ∀ f ∈ e.type.finders, ∃ t rs, g.registry.resolve f.target = .ok t ∧
    f.rule.find g.storage e.record = .ok rs
  report : ∀ v ∈ e.type.validators, ∃ verdict es, g.judge v.rule e = .ok verdict ∧
    Errors.ofVerdict verdict = .ok es

/-- Everything that is asked about the entities of a graph is answered. -/
def ResourceGraph.Answers (g : ResourceGraph (Except Fault) R) : Prop :=
  ∀ e : Entity R, e.IsTyped g → e.Answers g

namespace Entity.Answers

variable {e : Entity R} (he : e.Answers g)

include he

theorem exists_uri (root : String) (ext : Option String) : ∃ uri, e.uri g root ext = .ok uri := by
  obtain ⟨id, hid⟩ := he.identity
  exact ⟨_, by simp only [Entity.uri, idText_eq hid]; rfl⟩

theorem exists_related {rel : Relationship} (hrel : rel ∈ e.type.relationships) :
    ∃ x, g.storage.related e.record rel = .ok x := by
  cases hmany : rel.isMany with
  | true =>
    obtain ⟨rs, h⟩ := he.many rel hrel hmany
    exact ⟨_, h⟩
  | false =>
    rcases he.one rel hrel hmany with h | ⟨r, h⟩
    · exact ⟨_, h⟩
    · exact ⟨_, h⟩

theorem exists_relatedMany {rel : Relationship} (hrel : rel ∈ e.type.relationships)
    (hmany : rel.isMany = true) : ∃ c, g.relatedMany e rel = .ok c := by
  obtain ⟨t, ht⟩ := he.target rel hrel
  obtain ⟨rs, hrs⟩ := he.many rel hrel hmany
  simp only [ResourceGraph.relatedMany, ofExcept_eq, bind_eq_ok, pure_eq_ok]
  exact ⟨_, t, ht, _, hrs, rs, rfl, rfl⟩

theorem exists_relatedOne {rel : Relationship} (hrel : rel ∈ e.type.relationships)
    (hone : rel.isMany = false) : ∃ o, g.relatedOne e rel = .ok o := by
  obtain ⟨t, ht⟩ := he.target rel hrel
  simp only [ResourceGraph.relatedOne, ofExcept_eq, bind_eq_ok, pure_eq_ok]
  rcases he.one rel hrel hone with h | ⟨r, h⟩
  · exact ⟨_, t, ht, _, h, none, rfl, rfl⟩
  · exact ⟨_, t, ht, _, h, some r, rfl, rfl⟩

theorem exists_found {f : Finder} (hf : f ∈ e.type.finders) : ∃ c, g.found e f = .ok c := by
  obtain ⟨t, rs, ht, hrs⟩ := he.find f hf
  simp only [ResourceGraph.found, ofExcept_eq, bind_eq_ok, pure_eq_ok]
  exact ⟨_, t, ht, rs, hrs, rfl⟩

/-- The blank fields of an entity can be told. -/
theorem exists_blanks : ∃ names, e.blanks g = .ok names := by
  simp only [Entity.blanks, bind_eq_ok, pure_eq_ok]
  obtain ⟨ps, hps⟩ : ∃ ps, (e.type.properties.filter Property.required).filterM (fun p => do
      let v ← g.storage.value e.record p.name
      pure v.isNull) = .ok ps := exists_filterM fun p hp => by
    obtain ⟨v, hv⟩ := he.value p (List.mem_filter.1 hp).1
    exact ⟨_, bind_eq_ok.2 ⟨v, hv, rfl⟩⟩
  obtain ⟨rs, hrs⟩ : ∃ rs, (e.type.relationships.filter Relationship.required).filterM
      (fun rel => do
        let x ← g.storage.related e.record rel
        pure x.isNothing) = .ok rs := exists_filterM fun rel hrel => by
    obtain ⟨x, hx⟩ := he.exists_related (List.mem_filter.1 hrel).1
    exact ⟨_, bind_eq_ok.2 ⟨x, hx, rfl⟩⟩
  exact ⟨_, ps, hps, rs, hrs, rfl⟩

/-- What is wrong with an entity in a context can be told. -/
theorem exists_errors (c : Context) : ∃ es, e.errors g c = .ok es := by
  obtain ⟨ruled, hruled⟩ : ∃ ruled, e.verdicts g c = .ok ruled := exists_mapM fun v hv => by
    obtain ⟨verdict, es, hverdict, hes⟩ := he.report v (List.mem_filter.1 hv).1
    exact ⟨es, bind_eq_ok.2 ⟨verdict, hverdict, (ofExcept_eq _).trans hes⟩⟩
  have hrest : ∀ own : List Errors, (do
      let ruled ← e.verdicts g c
      pure (Errors.merge (own ++ ruled))) = .ok (Errors.merge (own ++ ruled)) :=
    fun own => bind_eq_ok.2 ⟨ruled, hruled, rfl⟩
  unfold Entity.errors
  split
  · obtain ⟨names, hnames⟩ := he.exists_blanks
    exact ⟨_, bind_eq_ok.2 ⟨_, bind_eq_ok.2 ⟨names, hnames, rfl⟩, hrest _⟩⟩
  · exact ⟨_, hrest []⟩

/-- Whether an entity is valid in some contexts can be told. -/
theorem exists_valid (contexts : List Context) : ∃ valid, e.valid g contexts = .ok valid := by
  have hvalid : ∀ cs : List Context, ∃ valid, e.validIn g cs = .ok valid := by
    intro cs
    induction cs with
    | nil => exact ⟨true, rfl⟩
    | cons c cs ih =>
      obtain ⟨es, hes⟩ := he.exists_errors c
      obtain ⟨valid, hvalid⟩ := ih
      cases hempty : es.isEmpty with
      | true => exact ⟨valid, bind_eq_ok.2 ⟨es, hes, (if_pos hempty).trans hvalid⟩⟩
      | false => exact ⟨false, bind_eq_ok.2 ⟨es, hes, if_neg (by simp [hempty])⟩⟩
  exact hvalid _

end Entity.Answers

namespace Renderer

variable {w : Renderer} {one : Entity R → Except Fault Representation}
  {many : Collection R → Except Fault Representation} {e : Entity R}

/-- Where the forms of what an entity leads to can be told, so can those of its fields. -/
theorem exists_fieldForm (he : e.Answers g)
    (hone : ∀ x : Entity R, x.IsTyped g → ∃ y, one x = .ok y)
    (hmany : ∀ c : Collection R, c.base = .owner e → c.IsTyped g → ∃ y, many c = .ok y)
    {d : ShownField} (hd : d ∈ e.type.shownFields) :
    ∃ x, fieldForm g one many e d = .ok x := by
  simp only [ResourceType.shownFields, List.mem_append, List.mem_map] at hd
  rcases hd with (⟨p, hp, rfl⟩ | ⟨rel, hrel, rfl⟩) | ⟨f, hf, rfl⟩
  · obtain ⟨v, hv⟩ := he.value p (List.mem_filter.1 hp).1
    exact ⟨_, bind_eq_ok.2 ⟨v, hv, rfl⟩⟩
  · have hmem := (List.mem_filter.1 hrel).1
    cases hm : rel.isMany with
    | true =>
      obtain ⟨c, hc⟩ := he.exists_relatedMany hmem hm
      obtain ⟨y, hy⟩ := hmany c (relatedMany_eq_ok hc).1 (isTyped_of_relatedMany hc)
      exact ⟨y, (fieldForm_many hm).trans (bind_eq_ok.2 ⟨c, hc, hy⟩)⟩
    | false =>
      obtain ⟨o, ho⟩ := he.exists_relatedOne hmem hm
      obtain ⟨y, hy⟩ : ∃ y, o.elim (pure (.value .null)) one = .ok y := by
        cases o with
        | none => exact ⟨_, rfl⟩
        | some x => exact hone x (isTyped_of_relatedOne ho)
      exact ⟨y, (fieldForm_one hm).trans (bind_eq_ok.2 ⟨o, ho, hy⟩)⟩
  · obtain ⟨c, hc⟩ := he.exists_found hf
    obtain ⟨y, hy⟩ := hmany c (found_eq_ok hc).1 (isTyped_of_found hc)
    exact ⟨y, bind_eq_ok.2 ⟨c, hc, hy⟩⟩

theorem exists_full (he : e.Answers g)
    (hone : ∀ x : Entity R, x.IsTyped g → ∃ y, one x = .ok y)
    (hmany : ∀ c : Collection R, c.base = .owner e → c.IsTyped g → ∃ y, many c = .ok y) :
    ∃ x, w.full g one many e = .ok x := by
  obtain ⟨uri, huri⟩ := he.exists_uri w.root w.ext
  choose! form hform using fun d (hd : d ∈ e.type.shownFields) =>
    exists_fieldForm he hone hmany hd
  exact ⟨_, full_eq_ok huri hform⟩

/-- What is wrong with an entity in the default context and in another can be told. -/
theorem exists_gateErrors (he : e.Answers g) (c : Context) : ∃ es, gateErrors g e c = .ok es := by
  obtain ⟨first, hfirst⟩ := he.exists_errors .default
  obtain ⟨more, hmore⟩ := he.exists_errors c
  unfold gateErrors
  rw [hfirst]
  by_cases hc : c = .default
  · exact ⟨first, if_pos hc⟩
  · exact ⟨_, (if_neg hc).trans (bind_eq_ok.2 ⟨more, hmore, rfl⟩)⟩

theorem exists_gated (he : e.Answers g)
    (hone : ∀ x : Entity R, x.IsTyped g → ∃ y, one x = .ok y)
    (hmany : ∀ c : Collection R, c.base = .owner e → c.IsTyped g → ∃ y, many c = .ok y)
    (c : Context) : ∃ x, w.gated g one many e c = .ok x := by
  obtain ⟨es, hes⟩ := exists_gateErrors he c
  obtain ⟨x, hx⟩ := exists_full (w := w) he hone hmany
  cases hempty : es.isEmpty with
  | true => exact ⟨x, bind_eq_ok.2 ⟨es, hes, by rw [if_pos hempty, hx]⟩⟩
  | false => exact ⟨_, bind_eq_ok.2 ⟨es, hes, if_neg (by simp [hempty])⟩⟩

variable (w) (hg : g.Answers)

include hg

theorem exists_entityLink (x : Entity R) (hx : x.IsTyped g) : ∃ y, w.entityLink g x = .ok y := by
  obtain ⟨uri, huri⟩ := (hg x hx).exists_uri w.root w.ext
  exact ⟨_, bind_eq_ok.2 ⟨uri, huri, rfl⟩⟩

omit hg in
theorem exists_collectionUri (he : e.Answers g) (c : Collection R) (hc : c.base = .owner e) :
    ∃ uri, c.uri g w.root w.ext = .ok uri := by
  obtain ⟨uri, huri⟩ := he.exists_uri w.root none
  simp only [Collection.uri, hc]
  exact ⟨_, bind_eq_ok.2 ⟨uri, huri, rfl⟩⟩

omit hg in
theorem exists_collectionLink (he : e.Answers g) (c : Collection R) (hc : c.base = .owner e) :
    ∃ y, w.collectionLink g c = .ok y := by
  obtain ⟨uri, huri⟩ := exists_collectionUri w he c hc
  exact ⟨_, bind_eq_ok.2 ⟨uri, huri, rfl⟩⟩

theorem exists_linked (he : e.Answers g) (c : Context) : ∃ x, w.linked g e c = .ok x :=
  exists_gated he (exists_entityLink w hg) (fun c hc _ => exists_collectionLink w he c hc) c

/-- The members of a collection can be shown with links. -/
theorem exists_members (c : Collection R) (hc : c.IsTyped g) :
    ∃ forms, c.entities.mapM (fun x => w.linked g x .default) = .ok forms :=
  exists_mapM fun x hx => exists_linked w hg (hg x (hc x hx)) .default

theorem exists_listing (he : e.Answers g) (c : Collection R) (hbase : c.base = .owner e)
    (hc : c.IsTyped g) : ∃ y, w.listing g (fun x => w.linked g x .default) c = .ok y := by
  obtain ⟨forms, hforms⟩ := exists_members w hg c hc
  obtain ⟨uri, huri⟩ := exists_collectionUri w he c hbase
  exact ⟨_, bind_eq_ok.2 ⟨forms, hforms, bind_eq_ok.2 ⟨uri, huri, rfl⟩⟩⟩

end Renderer

/-! ## Two tasks -/

/-- Tasks must have a title, and it is to be short; who changes a task signs it. -/
def taskType : ResourceType where
  name := "Task"
  properties := [{ name := "title", required := true }, { name := "by" }]
  relationships :=
    [{ name := "parts", target := .named "Task" },
      { name := "whole", target := .named "Task", cardinality := .one }]
  validators := [.of "short" [.default], .of "signed" [.default, .update]]
  plural := some "tasks"

/-- Two tasks, of which the first has no title and no one signed it. -/
def twoTasks : ResourceGraph (Except Fault) Bool where
  registry := ⟨[taskType]⟩
  storage :=
    { classOf := fun _ => none
      query := fun _ => .ok [false, true]
      get := fun _ id => .ok ([false, true].find? fun r => id == .text (if r then "1" else "0"))
      identity := fun r => .ok (.text (if r then "1" else "0"))
      value := fun r _ => .ok (if r then .text "me" else .null)
      related := fun r rel =>
        .ok (if rel.isMany then .many (if r then [] else [true])
          else if r then .one false else .nothing)
      source := fun _ _ => .ok [] }
  judge := fun rule e => .ok (if e.record then .null else
    .object [("title", .list [.text "title must not be blank", .text rule])])

theorem answers_twoTasks : twoTasks.Answers := by
  rintro ⟨t, r, es⟩ he
  obtain rfl := List.mem_singleton.1 he.type_mem
  refine ⟨⟨_, rfl⟩, fun p _ => ⟨_, rfl⟩, ?_, fun rel _ hmany => ?_, fun rel _ hone => ?_, nofun,
    fun v _ => ?_⟩
  · intro rel hrel
    obtain rfl | rfl : rel = _ ∨ rel = _ := by simpa [taskType] using hrel
    · exact ⟨_, rfl⟩
    · exact ⟨_, rfl⟩
  · exact ⟨if r then [] else [true], by simp [twoTasks, hmany]⟩
  · cases r
    · exact .inl (by simp [twoTasks, hone])
    · exact .inr ⟨false, by simp [twoTasks, hone]⟩
  · cases r
    · exact ⟨_, _, rfl, rfl⟩
    · exact ⟨_, _, rfl, rfl⟩

end Hypermedia
