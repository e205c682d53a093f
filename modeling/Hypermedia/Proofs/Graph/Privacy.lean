import Hypermedia.Proofs.Graph.Links

/-!
# What is hidden does not show

Two graphs look alike if they have the same types and records, and the records have the same
ids, classes, readable values, ends of readable relationships and finds, each seen through its
own type (`LooksLike`). What is hidden of a record may differ. If the entities have the same
errors too, everything that clients see of an entity or of a collection is the same in both
graphs (`LooksLike.representations_eq`).
-/

namespace Hypermedia

variable {R : Type}

/-- Two graphs have the same types and records, and each record shows the same through its own
type in both. -/
structure LooksLike (g₁ g₂ : ResourceGraph (Except Fault) R) : Prop where
  registry : g₁.registry = g₂.registry
  classOf : g₁.storage.classOf = g₂.storage.classOf
  query : ∀ t ∈ g₁.registry.types, g₁.storage.query t = g₂.storage.query t
  identity : ∀ x, g₁.storage.identity x = g₂.storage.identity x
  value : ∀ e : Entity R, e.IsTyped g₁ → ∀ p ∈ e.type.readableProperties,
    g₁.storage.value e.record p.name = g₂.storage.value e.record p.name
  related : ∀ e : Entity R, e.IsTyped g₁ → ∀ rel ∈ e.type.readableRelationships,
    g₁.storage.related e.record rel = g₂.storage.related e.record rel
  find : ∀ e : Entity R, e.IsTyped g₁ → ∀ f ∈ e.type.finders,
    f.rule.find g₁.storage e.record = f.rule.find g₂.storage e.record

/-- The entities have the same errors in both graphs. -/
def SameErrors (g₁ g₂ : ResourceGraph (Except Fault) R) : Prop :=
  ∀ e : Entity R, e.IsTyped g₁ → ∀ c, e.errors g₁ c = e.errors g₂ c

section

variable {α β ε : Type}

/-- Chains are equal if their first computations are, and what follows them for each result. -/
theorem bind_congr_ok {x y : Except ε α} {f f' : α → Except ε β} (hx : x = y)
    (hf : ∀ a, y = .ok a → f a = f' a) : x >>= f = y >>= f' := by
  subst hx
  cases x with
  | error => rfl
  | ok a => exact hf a rfl

theorem mapM_congr_mem {f f' : α → Except ε β} : ∀ {xs : List α}, (∀ x ∈ xs, f x = f' x) →
    xs.mapM f = xs.mapM f'
  | [], _ => rfl
  | x :: xs, h => by
    rw [List.mapM_cons, List.mapM_cons, h x List.mem_cons_self,
      mapM_congr_mem fun y hy => h y (List.mem_cons_of_mem _ hy)]

end

/-! ## Typed members -/

section

variable {g : ResourceGraph (Except Fault) R}

/-- The members of a collection are of their own types. -/
def Collection.IsTyped (g : ResourceGraph (Except Fault) R) (c : Collection R) : Prop :=
  ∀ e ∈ c.entities, e.IsTyped g

theorem isTyped_map {t : ResourceType} (ht : t ∈ g.registry.types) (rs : List R) :
    ∀ e ∈ rs.map (g.entity · t), e.IsTyped g := by
  intro e he
  obtain ⟨x, -, rfl⟩ := List.mem_map.1 he
  exact isTyped_entity x ht

theorem isTyped_of_collection {t : ResourceType} (ht : t ∈ g.registry.types) {c : Collection R}
    (h : g.collection t = .ok c) : c.IsTyped g := by
  obtain ⟨rs, -, h⟩ := bind_eq_ok.1 h
  obtain rfl := pure_eq_ok.1 h
  exact isTyped_map ht rs

theorem isTyped_of_relatedMany {e : Entity R} {rel : Relationship} {c : Collection R}
    (h : g.relatedMany e rel = .ok c) : c.IsTyped g := by
  simp only [ResourceGraph.relatedMany, bind_eq_ok, pure_eq_ok, ofExcept_eq] at h
  obtain ⟨t, ht, x, -, rs, -, rfl⟩ := h
  exact isTyped_map (Registry.resolve_mem ht) rs

theorem isTyped_of_found {e : Entity R} {f : Finder} {c : Collection R}
    (h : g.found e f = .ok c) : c.IsTyped g := by
  simp only [ResourceGraph.found, bind_eq_ok, pure_eq_ok, ofExcept_eq] at h
  obtain ⟨t, ht, rs, -, rfl⟩ := h
  exact isTyped_map (Registry.resolve_mem ht) rs

end

/-! ## Reading graphs that look alike -/

namespace LooksLike

variable {g₁ g₂ : ResourceGraph (Except Fault) R} (h : LooksLike g₁ g₂)

include h

theorem entity_eq : g₁.entity = g₂.entity := by
  funext x t
  simp only [ResourceGraph.entity, ResourceGraph.typeOf?, h.classOf, h.registry]

theorem collection_eq {t : ResourceType} (ht : t ∈ g₁.registry.types) :
    g₁.collection t = g₂.collection t := by
  rw [ResourceGraph.collection, ResourceGraph.collection, h.query t ht, h.entity_eq]

theorem relatedMany_eq {e : Entity R} (he : e.IsTyped g₁) {rel : Relationship}
    (hrel : rel ∈ e.type.readableRelationships) : g₁.relatedMany e rel = g₂.relatedMany e rel := by
  rw [ResourceGraph.relatedMany, ResourceGraph.relatedMany, h.related e he rel hrel, h.entity_eq,
    h.registry]

theorem relatedOne_eq {e : Entity R} (he : e.IsTyped g₁) {rel : Relationship}
    (hrel : rel ∈ e.type.readableRelationships) : g₁.relatedOne e rel = g₂.relatedOne e rel := by
  rw [ResourceGraph.relatedOne, ResourceGraph.relatedOne, h.related e he rel hrel, h.entity_eq,
    h.registry]

theorem found_eq {e : Entity R} (he : e.IsTyped g₁) {f : Finder} (hf : f ∈ e.type.finders) :
    g₁.found e f = g₂.found e f := by
  rw [ResourceGraph.found, ResourceGraph.found, h.find e he f hf, h.entity_eq, h.registry]

theorem uri_eq (e : Entity R) (root : String) (ext : Option String) :
    e.uri g₁ root ext = e.uri g₂ root ext := by
  rw [Entity.uri, Entity.uri, Entity.idText, Entity.idText, h.identity]

theorem collection_uri_eq (c : Collection R) (root : String) (ext : Option String) :
    c.uri g₁ root ext = c.uri g₂ root ext := by
  unfold Collection.uri
  cases c.base with
  | type => rfl
  | owner e => simp only [h.uri_eq]

/-! ## Showing graphs that look alike -/

variable (w : Renderer)

theorem entityLink_eq (e : Entity R) : w.entityLink g₁ e = w.entityLink g₂ e := by
  rw [Renderer.entityLink, Renderer.entityLink, h.uri_eq]

theorem collectionLink_eq (c : Collection R) : w.collectionLink g₁ c = w.collectionLink g₂ c := by
  rw [Renderer.collectionLink, Renderer.collectionLink, h.collection_uri_eq]

theorem listing_eq {member₁ member₂ : Entity R → Except Fault Representation}
    (hmember : ∀ e : Entity R, e.IsTyped g₁ → member₁ e = member₂ e) {c : Collection R}
    (hc : c.IsTyped g₁) : w.listing g₁ member₁ c = w.listing g₂ member₂ c := by
  rw [Renderer.listing, Renderer.listing, mapM_congr_mem fun e he => hmember e (hc e he),
    h.collection_uri_eq]

/-- The full form only shows what is readable, in the forms of what it leads to. -/
theorem full_eq {one₁ one₂ : Entity R → Except Fault Representation}
    {many₁ many₂ : Collection R → Except Fault Representation}
    (hone : ∀ e : Entity R, e.IsTyped g₁ → one₁ e = one₂ e)
    (hmany : ∀ c : Collection R, c.IsTyped g₁ → many₁ c = many₂ c) {e : Entity R}
    (he : e.IsTyped g₁) : w.full g₁ one₁ many₁ e = w.full g₂ one₂ many₂ e := by
  refine bind_congr_ok (h.uri_eq e w.root w.ext) fun uri _ => ?_
  refine bind_congr_ok (mapM_congr_mem fun p hp => ?_) fun values _ => ?_
  · rw [h.value e he p hp]
  refine bind_congr_ok (mapM_congr_mem fun rel hrel => ?_) fun related _ => ?_
  · split
    · refine bind_congr_ok (h.relatedMany_eq he hrel) fun c hc => ?_
      have hc' : g₁.relatedMany e rel = .ok c := (h.relatedMany_eq he hrel).trans hc
      rw [hmany c (isTyped_of_relatedMany hc')]
    · refine bind_congr_ok (h.relatedOne_eq he hrel) fun x hx => ?_
      cases x with
      | none => rfl
      | some other =>
        have hx' : g₁.relatedOne e rel = .ok (some other) := (h.relatedOne_eq he hrel).trans hx
        dsimp only
        rw [hone other (isTyped_of_relatedOne hx')]
  refine bind_congr_ok (mapM_congr_mem fun f hf => ?_) fun found _ => rfl
  refine bind_congr_ok (h.found_eq he hf) fun c hc => ?_
  have hc' : g₁.found e f = .ok c := (h.found_eq he hf).trans hc
  rw [hmany c (isTyped_of_found hc')]

variable (herrors : SameErrors g₁ g₂)

include herrors

theorem gated_eq {one₁ one₂ : Entity R → Except Fault Representation}
    {many₁ many₂ : Collection R → Except Fault Representation}
    (hone : ∀ e : Entity R, e.IsTyped g₁ → one₁ e = one₂ e)
    (hmany : ∀ c : Collection R, c.IsTyped g₁ → many₁ c = many₂ c) {e : Entity R}
    (he : e.IsTyped g₁) (c : Context) :
    w.gated g₁ one₁ many₁ e c = w.gated g₂ one₂ many₂ e c := by
  have hgate : Renderer.gateErrors g₁ e c = Renderer.gateErrors g₂ e c := by
    rw [Renderer.gateErrors, Renderer.gateErrors, herrors e he, herrors e he]
  rw [Renderer.gated, Renderer.gated, hgate, h.full_eq w hone hmany he]

theorem linked_eq {e : Entity R} (he : e.IsTyped g₁) (c : Context) :
    w.linked g₁ e c = w.linked g₂ e c :=
  h.gated_eq w herrors (fun x _ => h.entityLink_eq w x) (fun x _ => h.collectionLink_eq w x) he c

theorem embedded_eq {e : Entity R} (he : e.IsTyped g₁) (c : Context) :
    w.embedded g₁ e c = w.embedded g₂ e c :=
  h.gated_eq w herrors (fun _ hx => h.linked_eq w herrors hx .default)
    (fun _ hx => h.listing_eq w (fun _ hy => h.linked_eq w herrors hy .default) hx) he c

/-- Whatever clients see is the same in two graphs that look alike, if the entities have the
same errors: links to entities and to collections, entities in any context and collections, with
links or embedded, the collections of the types among them, and the root. -/
theorem representations_eq :
    (∀ e : Entity R, e.IsTyped g₁ → w.entityLink g₁ e = w.entityLink g₂ e ∧
      ∀ c embed, w.entity g₁ e c embed = w.entity g₂ e c embed) ∧
    (∀ c : Collection R, c.IsTyped g₁ → w.collectionLink g₁ c = w.collectionLink g₂ c ∧
      ∀ embed, w.collection g₁ c embed = w.collection g₂ c embed) ∧
    (∀ t ∈ g₁.registry.types, g₁.collection t = g₂.collection t ∧
      ∀ c, g₁.collection t = .ok c → c.IsTyped g₁) ∧
    (∀ e : Entity R, e.IsTyped g₁ →
      (∀ rel ∈ e.type.readableRelationships, g₁.relatedMany e rel = g₂.relatedMany e rel ∧
        ∀ c, g₁.relatedMany e rel = .ok c → c.IsTyped g₁) ∧
      ∀ f ∈ e.type.finders, g₁.found e f = g₂.found e f ∧
        ∀ c, g₁.found e f = .ok c → c.IsTyped g₁) ∧
    ∀ path, w.apiRoot g₁.registry path = w.apiRoot g₂.registry path := by
  refine ⟨fun e he => ⟨h.entityLink_eq w e, fun c embed => ?_⟩,
    fun c hc => ⟨h.collectionLink_eq w c, fun embed => ?_⟩,
    fun t ht => ⟨h.collection_eq ht, fun c hc => isTyped_of_collection ht hc⟩,
    fun e he => ⟨fun rel hrel => ⟨h.relatedMany_eq he hrel, fun c hc => isTyped_of_relatedMany hc⟩,
      fun f hf => ⟨h.found_eq he hf, fun c hc => isTyped_of_found hc⟩⟩,
    fun path => by rw [h.registry]⟩
  · cases embed with
    | false => exact h.linked_eq w herrors he c
    | true => exact h.embedded_eq w herrors he c
  · cases embed with
    | false => exact h.listing_eq w (fun x _ => h.entityLink_eq w x) hc
    | true => exact h.listing_eq w (fun x hx => h.linked_eq w herrors hx .default) hc

end LooksLike

/-! ## A diary -/

/-- Notes of a diary, of which the mood and the drafts are hidden. -/
def diaryType : ResourceType where
  name := "Note"
  properties := [{ name := "title" }, { name := "mood", reader := .hidden }]
  relationships :=
    [{ name := "next", target := .named "Note" },
      { name := "drafts", target := .named "Note", reader := .hidden }]
  plural := some "notes"

/-- A diary of two notes with this mood and these drafts. -/
def diary (mood : Value) (drafts : List Bool) : ResourceGraph (Except Fault) Bool where
  registry := ⟨[diaryType]⟩
  storage :=
    { classOf := fun _ => none
      query := fun _ => .ok [false, true]
      get := fun _ id => .ok ([false, true].find? fun r => id == .text (if r then "1" else "0"))
      identity := fun r => .ok (.text (if r then "1" else "0"))
      value := fun _ name => .ok (if name == "mood" then mood else .text "Monday")
      related := fun r rel =>
        .ok (.many (if rel.name == "drafts" then drafts else if r then [] else [true]))
      source := fun _ _ => .ok [] }
  judge := fun _ _ => .ok .null

theorem looksLike_diary (mood mood' : Value) (drafts drafts' : List Bool) :
    LooksLike (diary mood drafts) (diary mood' drafts') where
  registry := rfl
  classOf := rfl
  query _ _ := rfl
  identity _ := rfl
  value e he p hp := by
    obtain ⟨t, x, es⟩ := e
    obtain rfl := List.mem_singleton.1 he.type_mem
    obtain rfl : p = { name := "title" } := List.mem_singleton.1 hp
    rfl
  related e he rel hrel := by
    obtain ⟨t, x, es⟩ := e
    obtain rfl := List.mem_singleton.1 he.type_mem
    obtain rfl : rel = { name := "next", target := .named "Note" } := List.mem_singleton.1 hrel
    rfl
  find e he f hf := by
    obtain ⟨t, x, es⟩ := e
    obtain rfl := List.mem_singleton.1 he.type_mem
    cases hf

theorem sameErrors_diary (mood mood' : Value) (drafts drafts' : List Bool) :
    SameErrors (diary mood drafts) (diary mood' drafts') := by
  rintro ⟨t, x, es⟩ he c
  obtain rfl := List.mem_singleton.1 he.type_mem
  rfl

/-- A note is shown alike, with what follows it embedded, whatever the mood and the drafts. -/
theorem representations_eq_diary : ∃ x,
    ({} : Renderer).entity (diary (.text "fine") []) ⟨diaryType, false, []⟩ .update true = .ok x ∧
    ({} : Renderer).entity (diary .null [true, false]) ⟨diaryType, false, []⟩ .update true =
      .ok x := by
  have h := LooksLike.representations_eq (looksLike_diary (.text "fine") .null [] [true, false]) {}
    (sameErrors_diary _ _ _ _)
  have he : (⟨diaryType, false, []⟩ : Entity Bool).IsTyped (diary (.text "fine") []) :=
    ⟨List.mem_cons_self, rfl⟩
  have heq := (h.1 _ he).2 .update true
  obtain ⟨x, hx⟩ : ∃ x, ({} : Renderer).entity (diary (.text "fine") []) ⟨diaryType, false, []⟩
      .update true = .ok x := ⟨_, rfl⟩
  exact ⟨x, hx, heq.symm.trans hx⟩

end Hypermedia
