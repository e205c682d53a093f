import Hypermedia.Proofs.Graph.Links

/-!
# Roots and formats of addresses

A representation can be given other addresses (`Representation.mapAddresses`): the leaves that
are addresses change, and nothing else does. What comes before the addresses and the format that
comes after them are put there and nowhere else: with any root and any format everything is
represented as it is without them, with the addresses completed (`Renderer.complete`). The
address of an entity that stands in that of a collection below it is completed once
(`Collection.uri_eq_map`).
-/

namespace Hypermedia

/-! ## Representations with other addresses -/

namespace Representation

mutual

/-- A representation with other addresses. -/
def mapAddresses (f : String → String) : Representation → Representation
  | .value v => .value v
  | .address uri => .address (f uri)
  | .list items => .list (mapItems f items)
  | .object fields => .object (mapFields f fields)

/-- The items of a list with other addresses. -/
def mapItems (f : String → String) : List Representation → List Representation
  | [] => []
  | x :: r => x.mapAddresses f :: mapItems f r

/-- The fields of an object with other addresses. -/
def mapFields (f : String → String) :
    List (String × Representation) → List (String × Representation)
  | [] => []
  | (k, x) :: r => (k, x.mapAddresses f) :: mapFields f r

end

variable (f : String → String)

theorem mapItems_eq (items : List Representation) :
    mapItems f items = items.map (mapAddresses f) := by
  induction items with
  | nil => rfl
  | cons x r ih => rw [mapItems, ih, List.map_cons]

theorem mapFields_eq (fields : List (String × Representation)) :
    mapFields f fields = fields.map fun kv => (kv.1, kv.2.mapAddresses f) := by
  induction fields with
  | nil => rfl
  | cons kv r ih => rw [mapFields, ih, List.map_cons]

mutual

/-- The addresses of a representation with other addresses are the others. -/
theorem addresses_mapAddresses : ∀ x : Representation,
    (x.mapAddresses f).addresses = x.addresses.map f
  | .value _ => rfl
  | .address _ => rfl
  | .list items => itemAddresses_mapItems items
  | .object fields => fieldAddresses_mapFields fields

theorem itemAddresses_mapItems : ∀ items : List Representation,
    itemAddresses (mapItems f items) = (itemAddresses items).map f
  | [] => rfl
  | x :: r => by
    rw [mapItems, itemAddresses, itemAddresses, List.map_append, addresses_mapAddresses x,
      itemAddresses_mapItems r]

theorem fieldAddresses_mapFields : ∀ fields : List (String × Representation),
    fieldAddresses (mapFields f fields) = (fieldAddresses fields).map f
  | [] => rfl
  | (k, x) :: r => by
    rw [mapFields, fieldAddresses, fieldAddresses, List.map_append, addresses_mapAddresses x,
      fieldAddresses_mapFields r]

end

/-- Errors have no addresses. -/
theorem mapAddresses_ofErrors (es : Errors) : (ofErrors es).mapAddresses f = ofErrors es := rfl

end Representation

/-! ## Names that are bound to other things -/

namespace Fields

variable {α β : Type} (h : α → β)

theorem put_map (name : String) (x : α) (fields : List (String × α)) :
    put name (h x) (fields.map fun kv => (kv.1, h kv.2)) =
      (put name x fields).map fun kv => (kv.1, h kv.2) := by
  induction fields with
  | nil => rfl
  | cons kv r ih =>
    simp only [List.map_cons, put]
    split
    · rfl
    · rw [ih, List.map_cons]

theorem putAll_map (fields new : List (String × α)) :
    putAll (fields.map fun kv => (kv.1, h kv.2)) (new.map fun kv => (kv.1, h kv.2)) =
      (putAll fields new).map fun kv => (kv.1, h kv.2) := by
  induction new generalizing fields with
  | nil => rfl
  | cons kv r ih =>
    have hput := put_map h kv.1 kv.2 fields
    simp only [putAll, List.map_cons, List.foldl_cons] at ih ⊢
    rw [hput, ih]

end Fields

/-! ## Addresses -/

variable {m : Type → Type} [Monad m] [LawfulMonad m] {R : Type}

/-- A computation that goes on after another gives other things if both do. -/
theorem bind_eq_map {α α' β β' : Type} {x : m α} {x' : m α'} {k : α → m β} {k' : α' → m β'}
    {h : α → α'} {r : β → β'} (hx : x' = h <$> x) (hk : ∀ a, k' (h a) = r <$> k a) :
    x' >>= k' = r <$> (x >>= k) := by
  rw [hx, bind_map_left, map_bind]
  exact bind_congr hk

/-- A computation through a list gives other things if it does for each member. -/
theorem mapM_eq_map {α β : Type} {f f' : α → m β} (h : β → β) (hf : ∀ x, f' x = h <$> f x)
    (xs : List α) : xs.mapM f' = List.map h <$> xs.mapM f := by
  induction xs with
  | nil => simp
  | cons x xs ih => simp [hf, ih]

/-- An address with what comes before it and the format that comes after it. -/
def Renderer.complete (w : Renderer) (uri : String) : String :=
  w.root ++ uri ++ Naming.formatSuffix w.ext

variable (w : Renderer)

theorem ResourceType.uri_eq (t : ResourceType) :
    t.uri w.root w.ext = w.complete (t.uri "" none) := by
  simp [ResourceType.uri, Renderer.complete, Naming.formatSuffix, toString, String.append_assoc]

variable (g : ResourceGraph m R)

theorem Entity.uri_eq_map (e : Entity R) :
    e.uri g w.root w.ext = w.complete <$> e.uri g "" none := by
  simp [Entity.uri, ResourceType.uri, Renderer.complete, Naming.formatSuffix, toString,
    String.append_assoc]

theorem Collection.uri_eq_map (c : Collection R) :
    c.uri g w.root w.ext = w.complete <$> c.uri g "" none := by
  unfold Collection.uri
  cases c.base with
  | type t => rw [map_pure, ← ResourceType.uri_eq]
  | owner e =>
    -- the address of the owner has the root and no format: that comes after the name
    refine bind_eq_map (Entity.uri_eq_map { w with ext := none } g e) fun uri => ?_
    simp [Renderer.complete, Naming.formatSuffix, toString, String.append_assoc]

/-! ## Representations -/

namespace Renderer

open Hypermedia.Representation

theorem entityLink_eq_map (e : Entity R) :
    w.entityLink g e = mapAddresses w.complete <$> ({} : Renderer).entityLink g e := by
  simp [entityLink, Entity.uri_eq_map w, mapAddresses, mapFields]

theorem collectionLink_eq_map (c : Collection R) :
    w.collectionLink g c = mapAddresses w.complete <$> ({} : Renderer).collectionLink g c := by
  simp [collectionLink, Collection.uri_eq_map w, mapAddresses, mapFields]

variable {one one' : Entity R → m Representation} {many many' : Collection R → m Representation}

theorem listing_eq_map (hone : ∀ e, one' e = mapAddresses w.complete <$> one e)
    (c : Collection R) : w.listing g one' c =
      mapAddresses w.complete <$> ({} : Renderer).listing g one c := by
  simp [listing, mapM_eq_map _ hone, Collection.uri_eq_map w, mapAddresses, mapFields,
    mapItems_eq]

variable [MonadExceptOf Fault m]

/-- The fields of a full form are bound to the same values, and to the forms of what is led to
with other addresses. -/
theorem full_eq_map (hone : ∀ e, one' e = mapAddresses w.complete <$> one e)
    (hmany : ∀ c, many' c = mapAddresses w.complete <$> many c) (e : Entity R) :
    w.full g one' many' e = mapAddresses w.complete <$> ({} : Renderer).full g one many e := by
  let field := fun kv : String × Representation => (kv.1, kv.2.mapAddresses w.complete)
  have hpure : ∀ kv, (pure (field kv) : m _) = field <$> pure kv := fun kv =>
    (map_pure field kv).symm
  have hcollection : ∀ (x : m (Collection R)) (name : String),
      (x >>= fun c => many' c >>= fun y => pure (name, y)) =
        field <$> (x >>= fun c => many c >>= fun y => pure (name, y)) := fun x name =>
    bind_eq_map (id_map x).symm fun c => bind_eq_map (hmany c) fun y => hpure (name, y)
  refine bind_eq_map (Entity.uri_eq_map w g e) fun uri =>
    bind_eq_map (mapM_eq_map field (fun p => ?_) _) fun values =>
    bind_eq_map (mapM_eq_map field (fun rel => ?_) _) fun related =>
    bind_eq_map (mapM_eq_map field (fun f => hcollection _ _) _) fun found => ?_
  · exact bind_eq_map (id_map _).symm fun v => hpure (p.name, .value v)
  · by_cases hrel : rel.isMany = true
    · rw [if_pos hrel, if_pos hrel]
      exact hcollection _ _
    · rw [if_neg hrel, if_neg hrel]
      refine bind_eq_map (id_map _).symm fun o => ?_
      cases o with
      | none => exact hpure (rel.name, .value .null)
      | some other => exact bind_eq_map (hone other) fun y => hpure (rel.name, y)
  · rw [map_pure, mapAddresses, mapFields_eq, ← Fields.putAll_map]
    simp [field, mapAddresses]

theorem gated_eq_map (hone : ∀ e, one' e = mapAddresses w.complete <$> one e)
    (hmany : ∀ c, many' c = mapAddresses w.complete <$> many c) (e : Entity R) (c : Context) :
    w.gated g one' many' e c =
      mapAddresses w.complete <$> ({} : Renderer).gated g one many e c := by
  refine bind_eq_map (id_map _).symm fun es => ?_
  by_cases hes : es.isEmpty = true
  · simp only [id, if_pos hes]
    exact full_eq_map w g hone hmany e
  · simp only [id, if_neg hes, map_pure, mapAddresses_ofErrors]

theorem linked_eq_map (e : Entity R) (c : Context) :
    w.linked g e c = mapAddresses w.complete <$> ({} : Renderer).linked g e c :=
  gated_eq_map w g (entityLink_eq_map w g) (collectionLink_eq_map w g) e c

/-- Every form of an entity, alone or in the place of a link to it. -/
theorem entity_eq_map (e : Entity R) (c : Context) (embed : Bool) :
    w.entity g e c embed = mapAddresses w.complete <$> ({} : Renderer).entity g e c embed := by
  cases embed with
  | false => exact linked_eq_map w g e c
  | true =>
    exact gated_eq_map w g (fun x => linked_eq_map w g x .default)
      (listing_eq_map w g fun x => linked_eq_map w g x .default) e c

theorem collection_eq_map (c : Collection R) (embed : Bool) :
    w.collection g c embed = mapAddresses w.complete <$> ({} : Renderer).collection g c embed := by
  cases embed with
  | false => exact listing_eq_map w g (entityLink_eq_map w g) c
  | true => exact listing_eq_map w g (fun x => linked_eq_map w g x .default) c

theorem apiRoot_eq (r : Registry) (path : String) :
    w.apiRoot r path = (({} : Renderer).apiRoot r path).mapAddresses w.complete := by
  have hresources := Fields.putAll_map (mapAddresses w.complete) []
    (r.types.map fun t => (t.pluralName, Representation.address (t.uri "" none)))
  simp only [List.map_nil, List.map_map, Function.comp_def, mapAddresses,
    ← ResourceType.uri_eq] at hresources
  simp [apiRoot, mapAddresses, mapFields, mapFields_eq, hresources, complete, toString,
    Naming.formatSuffix]

/-- With a root and a format everything is represented as it is without them, with the root
before every address and the format after it: links, entities in any context, collections, with
links or with entities embedded, and the root of the api. Where something cannot be told the
fault is the same, in every monad with the effects of the storage. -/
theorem representation_eq_mapAddresses (root ext : String) (hext : ext ≠ "") :
    let w : Renderer := { root := root, ext := some ext }
    let f := fun uri => root ++ uri ++ "." ++ ext
    (∀ e : Entity R, w.entityLink g e = mapAddresses f <$> ({} : Renderer).entityLink g e) ∧
    (∀ c : Collection R,
      w.collectionLink g c = mapAddresses f <$> ({} : Renderer).collectionLink g c) ∧
    (∀ (e : Entity R) (c : Context) (embed : Bool),
      w.entity g e c embed = mapAddresses f <$> ({} : Renderer).entity g e c embed) ∧
    (∀ (c : Collection R) (embed : Bool),
      w.collection g c embed = mapAddresses f <$> ({} : Renderer).collection g c embed) ∧
    ∀ (r : Registry) (path : String),
      w.apiRoot r path = (({} : Renderer).apiRoot r path).mapAddresses f := by
  intro w f
  have hf : f = w.complete := by
    funext uri
    simp [f, w, complete, Naming.formatSuffix, hext, String.append_assoc]
  rw [hf]
  exact ⟨entityLink_eq_map w g, collectionLink_eq_map w g, entity_eq_map w g,
    collection_eq_map w g, apiRoot_eq w⟩

/-- The addresses of what the second note leads to go on after its own, with one root and one
format each. -/
theorem representation_eq_mapAddresses_twoNotes :
    ({ root := "http://h", ext := some "json" } : Renderer).entity twoNotes
      ⟨noteType, true, []⟩ .default false = .ok (.object
        [("uri", .address "http://h/notes/1.json"),
          ("next", .object
            [("uri", .address "http://h/notes/1/next.json"), ("count", .value (.int 0))]),
          ("up", .object [("uri", .address "http://h/notes/0.json")]),
          ("again", .object
            [("uri", .address "http://h/notes/1/again.json"), ("count", .value (.int 1))])]) := by
  have hplain : ({} : Renderer).entity twoNotes ⟨noteType, true, []⟩ .default false =
      .ok (.object
        [("uri", .address "/notes/1"),
          ("next", .object [("uri", .address "/notes/1/next"), ("count", .value (.int 0))]),
          ("up", .object [("uri", .address "/notes/0")]),
          ("again", .object
            [("uri", .address "/notes/1/again"), ("count", .value (.int 1))])]) := rfl
  obtain ⟨-, -, hentity, -, -⟩ :=
    representation_eq_mapAddresses twoNotes "http://h" "json" (by decide)
  rw [hentity, hplain]
  rfl

end Renderer

end Hypermedia
