import Hypermedia.Proofs.Graph.Forms
import Hypermedia.Proofs.Graph.Judging

/-!
# Representations of stored records

In a session that only reads, the entity of a stored record is shown in full without a fault
if the rules of its type are silent (`Act.reads_shown`): a field for its address, one for each
readable property with the value in its row, and links to what it leads to
(`Representation.IsFull`). What is shown depends on the database alone, not on what the session
has read of it before (`Catalog.fullForm`).
-/

namespace Hypermedia

namespace Representation

/-- The full form of an entity of a type under an address, with these values of its
properties and with links to what it leads to. -/
def IsFull (t : ResourceType) (uri : String) (value : String → Value) (x : Representation) :
    Prop :=
  ∃ related found, List.Forall₂ (fun rel f => f.1 = rel.name ∧ f.2.IsLink rel.isMany)
      t.readableRelationships related ∧
    List.Forall₂ (fun finder f => f.1 = finder.name ∧ f.2.IsLink true) t.finders found ∧
      x = .object (Fields.putAll [("uri", .address uri)]
        (t.readableProperties.map (fun p => (p.name, .value (value p.name))) ++ related ++ found))

end Representation

namespace Catalog

variable {c : Catalog} {reg : Registry} {book : RuleBook} {t : ResourceType} {m : Model}

theorem Presents.passes_default (h : c.Presents reg book t m) (value : String → Value) :
    t.Passes book .default value := by
  simp [ResourceType.Passes, h.rules_default]

end Catalog

/-- The address of the entity of a number. -/
def ResourceType.entityUri (t : ResourceType) (w : Renderer) (k : Int) : String :=
  s!"{t.uri w.root none}/{k}{Naming.formatSuffix w.ext}"

/-! ## The full forms of rows -/

/-- The number of a row. -/
def Row.number (row : Row) : Int :=
  match Row.get row "id" with
  | .int k => k
  | _ => 0

/-- The address of a collection below the entity of a number. -/
def ResourceType.collectionUri (t : ResourceType) (w : Renderer) (k : Int) (name : String) :
    String :=
  s!"{t.entityUri { w with ext := none } k}/{name}{Naming.formatSuffix w.ext}"

/-- A link to a collection of so many members below the entity of a number. -/
def ResourceType.collectionForm (t : ResourceType) (w : Renderer) (k : Int) (name : String)
    (count : Nat) : Representation :=
  .object
    [("uri", .address s!"{t.entityUri { w with ext := none } k}/{name}{Naming.formatSuffix w.ext}"),
      ("count", .value (.int count))]

/-- A link to the entity of a number. -/
def ResourceType.entityForm (t : ResourceType) (w : Renderer) (k : Int) : Representation :=
  .object [("uri", .address (t.entityUri w k))]

/-- A collection under an address, with links to the members under theirs. -/
def Representation.ofMembers (uri : String) (members : List String) : Representation :=
  .object
    [("uri", .address uri), ("count", .value (.int members.length)),
      ("items", .list (members.map fun u => .object [("uri", .address u)]))]

namespace Catalog

variable (c : Catalog) (reg : Registry) (D : Database) (w : Renderer) (t : ResourceType)
  (m : Model) (k : Int) (row : Row)

/-- The type of the records that a link of a model leads to. -/
def typeAt? (name : String) : Option ResourceType :=
  (m.link? name).bind fun l => (c.model? l.target).bind fun n => reg.typeOf? n.recordClass

/-- What a relationship of a row leads to: links to the entities of rows. -/
def relatedForm (rel : Relationship) : Representation :=
  let rows := c.rowsAt D m k row rel.name
  if rel.isMany then t.collectionForm w k rel.name rows.length
  else
    match rows.head?, c.typeAt? reg m rel.name with
    | some other, some t' => t'.entityForm w other.number
    | _, _ => .value .null

/-- The full form of the row of a number, as an entity of a type. -/
def fullForm : Representation :=
  .object (Fields.putAll [("uri", .address (t.entityUri w k))]
    (t.readableProperties.map (fun p => (p.name, .value (Row.get row p.name))) ++
      t.readableRelationships.map (fun rel => (rel.name, c.relatedForm reg D w t m k row rel)) ++
      t.finders.map fun f =>
        (f.name, t.collectionForm w k f.name (c.foundRows D m k row f).length)))

theorem isLink_relatedForm (rel : Relationship) :
    (c.relatedForm reg D w t m k row rel).IsLink rel.isMany := by
  unfold relatedForm
  cases rel.isMany with
  | true => exact ⟨_, _, rfl⟩
  | false =>
    dsimp only
    rw [if_neg Bool.false_ne_true]
    split
    · exact Or.inr ⟨_, rfl⟩
    · exact Or.inl rfl

theorem isFull_fullForm :
    (c.fullForm reg D w t m k row).IsFull t (t.entityUri w k) (Row.get row) :=
  ⟨_, _, List.forall₂_map_right_iff.2 (List.forall₂_same.2 fun rel _ =>
      ⟨rfl, c.isLink_relatedForm reg D w t m k row rel⟩),
    List.forall₂_map_right_iff.2 (List.forall₂_same.2 fun _ _ => ⟨rfl, _, _, rfl⟩), rfl⟩

end Catalog

/-! ## Showing rows -/

namespace Act

variable {c : Catalog} {D : Database} {I : Session → Prop} {s : Session} {reg : Registry}
  {book : RuleBook} (hI : c.Reading D I) (hq : ∀ s, I s → c.Quiet D s) (hp : c.Plain)
  (hD : c.Sound D) (hx : c.Exposed reg book)

include hI hq hp

/-- The address of a stored record ends in its number. -/
theorem reads_entityUri {e : Entity Ref} {m : Model} {k : Int} {row : Row}
    (he : c.Known D s e.record m k row) (w : Renderer) :
    Reads I (e.uri (entitiesOf c reg book).graph w.root w.ext) s
      (fun _ uri => uri = e.type.entityUri w k) False := by
  intro hs
  obtain ⟨x, hknown, -, -, hkey, -⟩ := (hq s hs).known? hp he
  revert hs
  have hid : Reads I (e.idText (entitiesOf c reg book).graph) s (fun _ id => id = toString k)
      False := by
    refine ((reads_identity hI e.record).imp (fun _ _ _ _ h => h) fun h => ?_).bind ?_
    · rw [hknown] at h
      cases h
    · rintro v t - - ⟨rfl, x', hx', rfl⟩
      obtain rfl := Option.some.inj (hknown.symm.trans hx')
      refine reads_pure fun _ => ?_
      rw [keyValue, hkey]
      rfl
  refine hid.bind fun id t _ _ hid => reads_pure fun _ => ?_
  rw [hid]
  rfl

theorem reads_entityLink {e : Entity Ref} {m : Model} {k : Int} {row : Row}
    (he : c.Known D s e.record m k row) (w : Renderer) :
    Reads I (w.entityLink (entitiesOf c reg book).graph e) s
      (fun _ x => x = e.type.entityForm w k) False :=
  (reads_entityUri hI hq hp he w).bind fun uri _ _ _ huri => reads_pure fun _ => by
    rw [huri, ResourceType.entityForm]

/-- The address of a collection below a stored record. -/
theorem reads_collectionUri {x : Collection Ref} {e : Entity Ref} (hbase : x.base = .owner e)
    {m : Model} {k : Int} {row : Row} (he : c.Known D s e.record m k row) (w : Renderer) :
    Reads I (x.uri (entitiesOf c reg book).graph w.root w.ext) s
      (fun _ uri => uri = e.type.collectionUri w k x.name) False := by
  unfold Collection.uri
  rw [hbase]
  exact (reads_entityUri hI hq hp he { w with ext := none }).bind fun _ _ _ _ huri =>
    reads_pure fun _ => by rw [huri, ResourceType.collectionUri]

theorem reads_collectionLink {x : Collection Ref} {e : Entity Ref} (hbase : x.base = .owner e)
    {m : Model} {k : Int} {row : Row} (he : c.Known D s e.record m k row) (w : Renderer) :
    Reads I (w.collectionLink (entitiesOf c reg book).graph x) s
      (fun _ y => y = e.type.collectionForm w k x.name x.entities.length) False :=
  (reads_collectionUri hI hq hp hbase he w).bind fun uri _ _ _ huri => reads_pure fun _ => by
    rw [huri, ResourceType.collectionUri, ResourceType.collectionForm, Collection.count]

/-- The members of a collection are shown as links to the entities of their rows. -/
theorem reads_entityLinks {n : Model} {t : ResourceType} (ht : reg.typeOf? n.recordClass = some t)
    {es : List (Entity Ref)} {rows : List Row} (hrows : List.Forall₂ (c.TypedRow reg D s n) es rows)
    (w : Renderer) : Reads I (es.mapM (w.entityLink (entitiesOf c reg book).graph)) s
      (fun _ xs => xs = (rows.map Row.number).map (t.entityForm w)) False := by
  rw [List.map_map]
  refine reads_map_forall₂ (R := fun u => c.TypedRow reg D u n) (t.entityForm w ∘ Row.number)
    hrows (fun e row u he => ?_) fun _ _ _ _ huv => Exists.imp fun _ hk => ⟨hk.1, hk.2.mono huv⟩
  obtain ⟨k, hk, he⟩ := he
  obtain rfl := Option.some.inj (ht.symm.trans he.type)
  have hnumber : row.number = k := by rw [Row.number, hk]
  rw [Function.comp_apply, hnumber]
  exact reads_entityLink hI hq hp he.toKnown w

/-- A collection below a stored record, with links to the entities of the rows of its members. -/
theorem reads_listing {x : Collection Ref} {e : Entity Ref} (hbase : x.base = .owner e)
    {m : Model} {k : Int} {row : Row} (he : c.Known D s e.record m k row) {n : Model}
    {t : ResourceType} (ht : reg.typeOf? n.recordClass = some t) {rows : List Row}
    (hrows : List.Forall₂ (c.TypedRow reg D s n) x.entities rows) (w : Renderer) :
    Reads I (w.collection (entitiesOf c reg book).graph x false) s
      (fun _ y => y = .ofMembers (e.type.collectionUri w k x.name)
        ((rows.map Row.number).map (t.entityUri w))) False :=
  (reads_entityLinks hI hq hp ht hrows w).bind fun items u _ hsu hitems =>
    (reads_collectionUri hI hq hp hbase (he.mono hsu) w).bind fun uri _ _ _ huri =>
      reads_pure fun _ => by
        simp only [hitems, huri, Collection.count, hrows.length_eq, Representation.ofMembers,
          List.length_map, List.map_map]
        rfl

include hD hx

section

variable {e : Entity Ref} {m : Model} {k : Int} {row : Row}
  (hpresents : c.Presents reg book e.type m) (he : c.Known D s e.record m k row)

include hpresents he

omit hx in
/-- A property is shown with what is in the row. -/
theorem reads_propertyForm {p : Property} (hmem : p ∈ e.type.properties) :
    Reads I (do
      let v ← (entitiesOf c reg book).graph.storage.value e.record p.name
      pure (p.name, Representation.value v)) s
      (fun _ f => f = (p.name, Representation.value (Row.get row p.name))) False := by
  intro hs
  obtain ⟨y, hy, -⟩ := hpresents.column p hmem
  obtain ⟨x, hknown, -, hmodel, -, hcell⟩ := (hq s hs).known? hp he
  refine Reads.bind (reads_cell hI hp hD hknown (hmodel ▸ hy)) (fun v u _ _ h =>
    reads_pure fun _ => ?_) hs
  rw [h.2, hcell]

/-- A relationship to many is shown as a link to a collection. -/
theorem reads_manyForm {rel : Relationship} (hrel : rel ∈ e.type.relationships)
    (hmany : rel.isMany = true) (w : Renderer) :
    Reads I (do
      let y ← (entitiesOf c reg book).graph.relatedMany e rel
      let x ← w.collectionLink (entitiesOf c reg book).graph y
      pure (rel.name, x)) s
      (fun _ f => f = (rel.name, c.relatedForm reg D w e.type m k row rel)) False := by
  refine (reads_relatedMany hI hq hp hD hx he hpresents hrel hmany).bind fun y u _ hsu hy => ?_
  obtain ⟨hbase, hname, l, n, _, _, hrows⟩ := hy
  refine (reads_collectionLink hI hq hp hbase (he.mono hsu) w).bind fun z _ _ _ hz =>
    reads_pure fun _ => ?_
  rw [Catalog.relatedForm, if_pos hmany, hz, hname, hrows.length_eq]

/-- A relationship to one leads to nothing, or to the stored record that is shown. -/
theorem reads_oneForm {rel : Relationship} (hrel : rel ∈ e.type.relationships)
    (hone : rel.isMany = false) (w : Renderer) :
    Reads I ((entitiesOf c reg book).graph.relatedOne e rel) s (fun u o =>
      o = none ∧ c.relatedForm reg D w e.type m k row rel = .value .null ∨
        ∃ other n j row', o = some other ∧ c.Known D u other.record n j row' ∧
          c.relatedForm reg D w e.type m k row rel = other.type.entityForm w j) False := by
  refine (reads_relatedOne hI hq hp hD hx he hpresents hrel hone).imp (fun u o _ _ h => ?_)
    fun h => h
  obtain ⟨l, n, hl, hn, hother⟩ := h
  rw [Catalog.relatedForm, if_neg (by simp [hone])]
  generalize (c.rowsAt D m k row rel.name).head? = first at hother ⊢
  cases hother with
  | none => exact Or.inl ⟨rfl, rfl⟩
  | @some other row' hrow =>
    obtain ⟨j, hid, hj⟩ := hrow
    have htype : c.typeAt? reg m rel.name = some other.type := by
      simp [Catalog.typeAt?, hl, hn, hj.type]
    have hnumber : row'.number = j := by rw [Row.number, hid]
    refine Or.inr ⟨other, n, j, row', rfl, hj.toKnown, ?_⟩
    rw [htype, ← hnumber]

/-- A finder is shown as a link to a collection. -/
theorem reads_foundForm {f : Finder} (hf : f ∈ e.type.finders) (w : Renderer) :
    Reads I (do
      let y ← (entitiesOf c reg book).graph.found e f
      let x ← w.collectionLink (entitiesOf c reg book).graph y
      pure (f.name, x)) s
      (fun _ x => x = (f.name, e.type.collectionForm w k f.name
        (c.foundRows D m k row f).length)) False := by
  refine (reads_found hI hq hp hD hx he hpresents hf).bind fun y u _ hsu hy => ?_
  obtain ⟨hbase, hname, _, _, _, _, hrows⟩ := hy
  refine (reads_collectionLink hI hq hp hbase (he.mono hsu) w).bind fun z _ _ _ hz =>
    reads_pure fun _ => ?_
  rw [hz, hname, hrows.length_eq]

end

/-- The full form of a stored record. -/
theorem reads_full {e : Entity Ref} {m : Model} {k : Int} {row : Row}
    (he : c.Typed reg D s e m k row) (w : Renderer) :
    Reads I (w.full (entitiesOf c reg book).graph (w.entityLink (entitiesOf c reg book).graph)
      (w.collectionLink (entitiesOf c reg book).graph) e) s
      (fun _ x => x = c.fullForm reg D w e.type m k row) False := by
  obtain ⟨-, hpresents⟩ := hx.presents_of_typeOf he.mem he.type
  refine (reads_entityUri hI hq hp he.toKnown w).bind fun uri s₁ _ hs₁ huri => ?_
  refine (reads_map fun p hmem t _ hst => reads_propertyForm hI hq hp hD hpresents
    (he.toKnown.mono (hs₁.trans hst)) (List.mem_filter.1 hmem).1).bind
      fun values s₂ _ hs₂ hvalues => ?_
  refine (reads_map (g := fun rel => (rel.name, c.relatedForm reg D w e.type m k row rel))
    fun rel hmem t _ hst => ?_).bind fun related s₃ _ hs₃ hrelated => ?_
  · have hrel := (List.mem_filter.1 hmem).1
    have he' := he.toKnown.mono (hs₁.trans (hs₂.trans hst))
    refine reads_ite (reads_manyForm hI hq hp hD hx hpresents he' hrel · w) fun hone => ?_
    refine (reads_oneForm hI hq hp hD hx hpresents he' hrel (by simpa using hone) w).bind
      fun o u _ _ h => ?_
    obtain ⟨rfl, hform⟩ | ⟨other, n, j, row', rfl, hother, hform⟩ := h
    · exact reads_pure fun _ => by rw [hform]
    · exact (reads_entityLink hI hq hp hother w).bind fun z _ _ _ hz => reads_pure fun _ => by
        rw [hz, hform]
  refine (reads_map fun f hf t _ hst => reads_foundForm hI hq hp hD hx hpresents
    (he.toKnown.mono (hs₁.trans (hs₂.trans (hs₃.trans hst)))) hf w).bind
      fun found _ _ _ hfound => reads_pure fun _ => ?_
  rw [huri, hvalues, hrelated, hfound]
  rfl

/-- A stored record is shown in full if the rules of its type are silent. -/
theorem reads_shown {e : Entity Ref} {m : Model} {k : Int} {row : Row}
    (he : c.Typed reg D s e m k row) {y : Context} (hpass : e.type.Passes book y (Row.get row))
    (w : Renderer) : Reads I (w.linked (entitiesOf c reg book).graph e y) s
      (fun _ x => x = c.fullForm reg D w e.type m k row) False := by
  obtain ⟨-, hpresents⟩ := hx.presents_of_typeOf he.mem he.type
  have hgate : Reads I (Renderer.gateErrors (entitiesOf c reg book).graph e y) s
      (fun _ es => es = []) False := by
    refine (reads_errors hI hq hp hD hx he (hpresents.passes_default _)).bind
      fun es t _ hst hes => reads_ite (fun _ => reads_pure fun _ => hes) fun _ => ?_
    refine (reads_errors hI hq hp hD hx (he.mono hst) hpass).bind fun more u _ _ hmore =>
      reads_pure fun _ => ?_
    rw [hes, hmore]
    rfl
  refine hgate.bind fun es t _ hst hes => ?_
  rw [hes]
  exact reads_full hI hq hp hD hx (he.mono hst) w

end Act

end Hypermedia
