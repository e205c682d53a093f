import Hypermedia.Proofs.Graph.Keeping
import Hypermedia.Proofs.Graph.Payloads
import Hypermedia.Proofs.Schema.Inheriting
import Hypermedia.Proofs.Session.Giving

/-!
# Mapping payloads among drafts

A resource type describes a model if it lets clients write only what they may
(`Catalog.Describes`). Then what a payload gives to the fields of a type suits the model,
however deep the descriptions of new records stand inside each other, and mapping it leaves a
session of drafts one. To columns a payload gives something only under the names of writable
properties that it has itself (`ResourceType.Offers`, `Catalog.Mapped`).
-/

namespace Hypermedia

/-- A type has the records of a model, and what clients may write of it are columns of their
own and links of the model. -/
structure Catalog.Describes (c : Catalog) (reg : Registry) (t : ResourceType) (m : Model) :
    Prop where
  model : t.model.bind c.ofClass? = some m
  built : t.isAbstract = false → m.isBuilt = true
  property : ∀ p ∈ t.writableProperties, m.link? p.name = none ∧
    ∀ x ∈ m.column? p.name, m.isOwn x.column = true
  relationship : ∀ rel ∈ t.relationships, ∃ l, m.link? rel.name = some l ∧
    rel.inverse = l.inverse ∧ rel.isMany = l.isList ∧
      ∀ t', reg.resolve rel.target = .ok t' → t'.model.bind c.ofClass? = c.model? l.target

/-- A payload gives something to a property that clients may write. -/
def ResourceType.Offers (t : ResourceType) (fields : List (String × Value)) (name : String) :
    Prop :=
  (∃ p ∈ t.writableProperties, p.name = name) ∧ (Fields.get? name fields).isSome = true

/-- Some type that has the records of a model lets clients write a property. -/
def Catalog.Opens (c : Catalog) (reg : Registry) (m : Model) (name : String) : Prop :=
  ∃ t ∈ reg.types, c.Describes reg t m ∧ ∃ p ∈ t.writableProperties, p.name = name

theorem ResourceType.Offers.opens {c : Catalog} {reg : Registry} {t : ResourceType} {m : Model}
    {fields : List (String × Value)} {name : String} (h : t.Offers fields name)
    (ht : t ∈ reg.types) (hm : c.Describes reg t m) : c.Opens reg m name :=
  ⟨t, ht, hm, h.1⟩

theorem Catalog.Opens.mem {c : Catalog} {reg : Registry} {m : Model} {name : String}
    (h : c.Opens reg m name) : m ∈ c.models := by
  obtain ⟨t, -, hm, -⟩ := h
  exact Act.ofClass?_mem hm.model

/-- What a payload gives to the fields of a type: each of them once, what suits the model, and
all values that it has for writable properties. -/
structure Catalog.Mapped (t : ResourceType) (m : Model) (fields : List (String × Value))
    (given : List (String × Given Ref)) : Prop where
  suits : ∀ f ∈ given, Catalog.Suits m (t.Offers fields) f
  names : (given.map Prod.fst).Nodup
  property : ∀ p ∈ t.writableProperties, ∀ v, Fields.get? p.name fields = some v →
    Fields.get? p.name given = some (.value v)

/-- Reading the records of a session keeps what reading keeps. -/
theorem Catalog.Reading.keepsGraph {c : Catalog} {D : Database} {I : Session → Prop}
    (hI : c.Reading D I) (hp : c.Plain) (hD : c.Sound D) (reg : Registry) (book : RuleBook) :
    Act.KeepsGraph I
      { registry := reg, storage := c.store.toStorage, judge := book.judge c.store.toStorage } where
  query := fun t => Act.Reads.keeps (fun _ => Act.reads_query hI hp hD t) fun _ _ _ _ _ _ => trivial
  get := fun t id =>
    Act.Reads.keeps (fun _ => Act.reads_lookup hI hp hD t id) fun _ _ _ _ _ _ => trivial
  identity := fun r => Act.Reads.keeps (fun _ => Act.reads_identity hI r) fun _ _ _ _ _ _ => trivial
  value := fun r name =>
    Act.Reads.keeps (fun _ => Act.reads_fieldValue hI hp hD r name) fun _ _ _ _ _ _ => trivial
  related := fun r rel =>
    Act.Reads.keeps (fun _ => Act.reads_related hI hp hD r rel) fun _ _ _ _ _ _ => trivial
  source := fun r name =>
    Act.Reads.keeps (fun _ => Act.reads_source hI hp hD r name) fun _ _ _ _ _ _ => trivial
  judge := Act.keeps_judge (fun r name =>
    Act.Reads.keeps (fun _ => Act.reads_fieldValue hI hp hD r name) fun _ _ _ _ _ _ => trivial) book

namespace Act

variable {c : Catalog} {D : Database} {reg : Registry} {I : Session → Prop}
  (hI : c.Drafting D (c.Opens reg) I) (hp : c.Plain) (hD : c.Sound D)
  (hreg : ∀ t ∈ reg.types, ∃ m, c.Describes reg t m) (book : RuleBook)

/-- The entities of the records of a session. -/
abbrev entitiesOf (c : Catalog) (reg : Registry) (book : RuleBook) : WritableGraph Act Ref :=
  { registry := reg, store := c.store, judge := book.judge c.store.toStorage }

include hI hp hD

theorem keeps_newErrors (e : Entity Ref) (inverse : Option String) :
    Keeps I ((entitiesOf c reg book).newErrors e inverse) fun _ => True :=
  have hg := hI.toReading.keepsGraph hp hD reg book
  (hg.errors e .default).bind fun _ _ => (hg.errors e .create).bind fun _ _ => keeps_pure trivial

/-- The record of an id is one of the model of the type. -/
theorem keeps_refer {target : ResourceType} {m : Model} (hm : target.model.bind c.ofClass? = some m)
    (ha : c.isAlone m = true) (key : String) (v : Value) (errors : Errors) :
    Keeps I ((entitiesOf c reg book).refer target key v errors)
      fun x => ∀ r, x.1 = some r → r.model = m.name := by
  have hlookup : Keeps I ((entitiesOf c reg book).graph.lookup target
      (Payload.referredId v)) fun o => ∀ e, o = some e → e.record.model = m.name := by
    refine (Reads.keeps (fun _ => reads_lookup hI.toReading hp hD target (Payload.referredId v))
      (Q := fun o => ∀ r, o = some r → r.model = m.name) ?_).bind fun o ho => keeps_pure ?_
    · rintro s t o - ht ⟨m', hm', hkey, hfound, -⟩ r rfl
      obtain rfl := Option.some.inj (hm.symm.trans hm')
      obtain ⟨vs, hvs⟩ := hkey rfl
      obtain ⟨k, hk, -⟩ := (hfound vs hvs).holds r rfl
      exact (hI.drafts ht).model_of_holds ha hk
    · intro e he
      obtain ⟨r, hr, rfl⟩ := Option.map_eq_some_iff.1 he
      exact ho r hr
  refine hlookup.bind fun o ho => ?_
  cases o with
  | none => exact keeps_pure (by simp)
  | some e =>
    refine keeps_pure ?_
    rintro r ⟨⟩
    exact ho e rfl

/-- A mapping of descriptions gives what suits the models that the types describe. -/
def Maps (c : Catalog) (I : Session → Prop) (reg : Registry)
    (nested : WritableGraph.Mapping Act Ref) : Prop :=
  ∀ t ∈ reg.types, ∀ m, c.Describes reg t m → ∀ fields,
    Keeps I (nested t fields) fun p => ∀ f ∈ p.given, Catalog.Suits m (t.Offers fields) f

variable {nested : WritableGraph.Mapping Act Ref} (hn : Maps c I reg nested)

include hn

/-- A described record is one of the model of its type. -/
theorem keeps_describe {target : ResourceType} (ht : target ∈ reg.types) {m : Model}
    (hm : c.Describes reg target m) (key : String) (inverse : Option String)
    (fields : List (String × Value)) (errors : Errors) :
    Keeps I ((entitiesOf c reg book).describe nested target key inverse fields errors)
      fun x => ∀ r, x.1 = some r → r.model = m.name := by
  refine keeps_ite (fun _ => keeps_pure (by simp)) fun habstract => ?_
  refine (hn target ht m hm fields).bind fun p hsuits => ?_
  have hbuilt := hm.built (by simpa using habstract)
  refine (keeps_build hp hD hI hm.model hbuilt fun f hf =>
    (hsuits f hf).imp fun name hname => hname.opens ht hm).bind fun r hr => ?_
  refine (keeps_newErrors hI hp hD book _ inverse).bind fun own _ => keeps_pure ?_
  rintro r' ⟨⟩
  exact hr

theorem keeps_resolve {target : ResourceType} (ht : target ∈ reg.types) {m : Model}
    (hm : c.Describes reg target m) (ha : c.isAlone m = true) (key : String) (mayDescribe : Bool)
    (inverse : Option String) (v : Value) (errors : Errors) :
    Keeps I
      ((entitiesOf c reg book).resolve nested target key mayDescribe inverse v errors)
      fun x => ∀ r, x.1 = some r → r.model = m.name := by
  unfold WritableGraph.resolve
  split
  · exact keeps_describe hI hp hD book hn ht hm key inverse _ errors
  · exact keeps_refer hI hp hD book hm.model ha key v errors

theorem keeps_resolveAll {target : ResourceType} (ht : target ∈ reg.types) {m : Model}
    (hm : c.Describes reg target m) (ha : c.isAlone m = true) (key : String) (mayDescribe : Bool)
    (inverse : Option String) (vs : List Value) : ∀ errors : Errors,
    Keeps I
      ((entitiesOf c reg book).resolveAll nested target key mayDescribe inverse vs errors)
      fun x => ∀ r ∈ x.1, r.model = m.name := by
  induction vs with
  | nil => exact fun _ => keeps_pure (by simp)
  | cons v vs ih =>
    intro errors
    refine (keeps_resolve hI hp hD book hn ht hm ha key mayDescribe inverse v errors).bind
      fun x hx => (ih x.2).bind fun y hy => keeps_pure fun r hr => ?_
    rcases List.mem_append.1 hr with hr | hr
    · exact hx r (by simpa using hr)
    · exact hy r hr

include hreg

/-- What a payload gives to a relationship suits the model. -/
theorem keeps_mapRelationship {t : ResourceType} {m : Model} (hm : c.Describes reg t m)
    (hmem : m ∈ c.models) {rel : Relationship} (hrel : rel ∈ t.relationships)
    (fields : List (String × Value)) {p : Payload Ref}
    (hmapped : Catalog.Mapped t m fields p.given) :
    Keeps I ((entitiesOf c reg book).mapRelationship nested fields p rel)
      fun p => Catalog.Mapped t m fields p.given := by
  obtain ⟨l, hl, -, -, htarget⟩ := hm.relationship rel hrel
  obtain ⟨n, hn', hspec⟩ := hp.linkSpec hmem (List.mem_of_find?_eq_some hl)
  have hname := (Catalog.model?_mem hn').2
  have hgive : ∀ (es : Errors) (x : Given Ref), x.AllOf n.name →
      Catalog.Mapped t m fields ({ p with errors := es }.give rel.name x).given := by
    refine fun es x hx => ⟨fun f hf => ?_, Fields.nodup_put hmapped.names, fun q hq v hv => ?_⟩
    · rcases Fields.mem_put hf with hf | rfl
      · exact hmapped.suits f hf
      · refine ⟨fun l' hl' => ?_, fun hnone => by simp [hl] at hnone⟩
        obtain rfl := Option.some.inj (hl.symm.trans hl')
        exact hname ▸ hx
    · -- A link has no property of its name.
      have hne : q.name ≠ rel.name := fun h => by
        simp [h ▸ (hm.property q hq).1] at hl
      exact (Fields.get?_put _ _ _ _).trans ((if_neg hne).trans (hmapped.property q hq v hv))
  unfold WritableGraph.mapRelationship
  rw [monadOfExcept_eq]
  refine (keeps_ofExcept fun _ h => h).bind fun target hres => ?_
  have ht := Registry.resolve_mem hres
  obtain ⟨m', hm'⟩ := hreg target ht
  obtain rfl : m' = n := by
    have h := htarget target hres
    rw [hm'.model, hn'] at h
    exact Option.some.inj h
  split
  · exact keeps_pure hmapped
  · next key v mayDescribe _ =>
    refine keeps_ite (fun _ => ?_) fun _ => keeps_ite (fun _ => ?_) fun _ => ?_
    · split
      · exact (keeps_resolveAll hI hp hD book hn ht hm' hspec.alone key mayDescribe rel.inverse _
          p.errors).bind fun x hx => keeps_pure (hgive _ _ hx)
      · exact keeps_pure hmapped
    · exact keeps_pure (hgive _ _ trivial)
    · refine (keeps_resolve hI hp hD book hn ht hm' hspec.alone key mayDescribe rel.inverse v
        p.errors).bind fun x hx => keeps_pure (hgive _ _ ?_)
      obtain ⟨r, es⟩ := x
      cases r with
      | none => trivial
      | some r => exact hx r rfl

omit hn

omit hI hp hD hreg in
/-- What a payload gives to properties suits the model. -/
theorem mapped_of_mapProperties {t : ResourceType} {m : Model} (hm : c.Describes reg t m)
    (fields : List (String × Value)) :
    Catalog.Mapped t m fields (WritableGraph.mapProperties t fields : Payload Ref).given := by
  refine ⟨?_, ?_, fun p hp v hv => WritableGraph.get?_mapProperties hp hv⟩
  · refine List.foldlRecOn (motive := fun q : Payload Ref =>
      ∀ f ∈ q.given, Catalog.Suits m (t.Offers fields) f) _ _ (by simp) fun q hq p hp => ?_
    split
    · next v hv =>
      intro f hf
      rcases Fields.mem_put hf with hf | rfl
      · exact hq f hf
      · obtain ⟨hnone, hown⟩ := hm.property p hp
        exact ⟨fun l hl => by simp [hnone] at hl,
          fun _ x hx => ⟨hown x hx, ⟨p, hp, rfl⟩, by simp [hv]⟩⟩
    · exact hq
  · refine List.foldlRecOn (motive := fun q : Payload Ref => (q.given.map Prod.fst).Nodup) _ _
      (by simp) fun q hq p hp => ?_
    split
    · exact Fields.nodup_put hq
    · exact hq

/-- What a payload gives to the fields of a type, if its own descriptions are mapped. -/
theorem keeps_mapFields_succ (fuel : Nat)
    (hn : Maps c I reg ((entitiesOf c reg book).mapFields fuel))
    {t : ResourceType} {m : Model} (hm : c.Describes reg t m) (fields : List (String × Value)) :
    Keeps I ((entitiesOf c reg book).mapFields (fuel + 1) t fields)
      fun p => Catalog.Mapped t m fields p.given :=
  keeps_foldlM (mapped_of_mapProperties hm fields) fun _ hmapped _ hrel =>
    keeps_mapRelationship hI hp hD hreg book hn hm (ofClass?_mem hm.model)
      (List.mem_filter.1 hrel).1 fields hmapped

theorem maps_mapFields (fuel : Nat) : Maps c I reg ((entitiesOf c reg book).mapFields fuel) := by
  induction fuel with
  | zero => exact fun _ _ _ _ _ => keeps_pure (by simp)
  | succ fuel ih =>
    exact fun t _ m hm fields =>
      (keeps_mapFields_succ hI hp hD hreg book fuel ih hm fields).imp fun _ h => h.suits

/-- What a payload gives to the fields of a type suits the model that the type describes. -/
theorem keeps_mapPayload {t : ResourceType} {m : Model} (hm : c.Describes reg t m)
    (fields : List (String × Value)) : Keeps I ((entitiesOf c reg book).mapPayload t fields)
      fun p => Catalog.Mapped t m fields p.given :=
  keeps_mapFields_succ hI hp hD hreg book _ (maps_mapFields hI hp hD hreg book _) hm fields

end Act

end Hypermedia
