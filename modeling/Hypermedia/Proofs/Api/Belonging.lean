import Hypermedia.Proofs.Api.Creating
import Hypermedia.Proofs.Api.Retrieving
import Hypermedia.Proofs.Session.Owning

/-!
# New members belong to their owner

A relationship to many is mirrored by a link to one of the members, which fills a column
(`Catalog.Mirrors`). A new member that a request makes for an owner has the number of the owner in
this column, and this is what the answer shows (`Act.ends_create_owned`): the owner is attached
after the payload gave to the member what it gives, and its row stays (`Service.HasOwned`).
-/

namespace Hypermedia

/-- The relationship of a model to many is mirrored by a link to one of the members, the only link
that fills a column. -/
structure Catalog.Mirrors (c : Catalog) (n m : Model) (rel : Relationship) (back : Link)
    (column : String) : Prop where
  inverse : rel.inverse = some back.name
  link : m.link? back.name = some back
  kind : back.kind = .reference column
  only : ∀ l ∈ m.links, l.kind = .reference column → l = back
  target : c.model? back.target = some n
  members : ∃ l, n.link? rel.name = some l ∧ l.kind = .members column ∧ c.model? l.target = some m
  forth : ∀ l, Act.inverseOf c back = some l → l.isList = true ∧ back.name ≠ l.name

/-- A session of drafts in which a new record, which has what a request asks for, is linked to the
record of a row. -/
def Service.HasOwned (s : Service) (c : Catalog) (D : Database) (declared : ResourceType)
    (m : Model) (request : Request) (o : Ref) (table : String) (i : Int) (back : Link) (r : Ref)
    (t : Session) : Prop :=
  (s.HasDraft c D declared m request r t ∧
    c.Carrying D (o.number + 1) (Entry.Pinned o table i) t) ∧ t.Points r back.name o

namespace Act

open Service

variable {s : Service} {c : Catalog} {D : Database} (hD : c.Sound D) {n m : Model}
  {rel : Relationship} {back : Link} {column : String} (h : c.Mirrors n m rel back column)
  {declared : ResourceType} {request : Request}

include h hD

/-- A new record that is linked to an owner is stored with the number of the owner. -/
theorem storable_hasOwned (hp : c.Plain) {o : Ref} {i : Int}
    (hrange : storeInteger i = .ok (.int i)) {r : Ref} (hm : m ∈ c.models)
    (hr : r.model = m.name) :
    c.Storable D r (s.HasOwned c D declared m request o n.rootTable i back r)
      (c.Filling r column (.int i) (.int i)) fun get => get column = .int i := by
  have hI : c.Editing D fun t => s.HasDraft c D declared m request r t ∧
      c.Carrying D (o.number + 1) (Entry.Pinned o n.rootTable i) t :=
    (editing_hasDraft hp hD r).and (Catalog.Carrying.editing hp hD (Entry.stable_pinned o _ i))
  refine ⟨hI.toReading.points fun _ ht => Nat.lt_of_succ_le ht.1.2.since,
    enrolling_points (enrolling hI), fun _ hu => hu.1.1.1, fun u hu hmember => ?_,
    fun u v hv e he href hkey => hv.shown_eq (fun _ _ _ hW => hW) he href hkey⟩
  obtain ⟨z, hz, href, hmember⟩ := hmember
  obtain ⟨⟨⟨hedited, hfilled⟩, hpinned⟩, hpoints⟩ := hu
  have hnew := (hfilled.carried z hz href).1
  have hmodel : z.model = m := by
    have hsome := (hedited.draft z hz).model?_eq hp
    rw [href, hr, hp.model?_eq hm] at hsome
    exact (Option.some.inj hsome).symm
  have howned : c.IsOwned u z back column o i :=
    { mem := hz
      pending := by
        cases hph : z.phase <;> simp_all [Entry.isMember, Entry.isStored, Entry.isPending]
      link := hmodel ▸ List.mem_of_find?_eq_some h.link
      kind := h.kind
      only := fun l hl => h.only l (hmodel ▸ hl)
      points := href ▸ hpoints
      owner := fun e he heo => (hpinned.carried e he heo).2 }
  exact href ▸ howned.yields hp hD hedited hrange

variable (hs : s.Serves c) (hm : c.Describes s.registry declared m) (hbuilt : m.isBuilt = true)
  (hn : c.Fills n) {t : ResourceType} (ht : s.registry.typeOf? n.recordClass = some t) {i : Int}
  {row : Row} (hrow : D.row? n.rootTable i = some row) {p q : String} {readOnly : Bool}
  (hscope : (Scope.relationship declared p readOnly (.type t q) rel).Formed s.registry)
  {suffix : Option String}

include hs hm hbuilt hn ht hrow hscope

/-- What is drafted for an owner is a new record that is linked to the owner. -/
theorem ends_drafted_owned : Ends
    (s.drafted c.store (.relationship declared p readOnly (.type t q) rel) request
      { params := [(q, .text (toString i))], suffix }) (.start D) (fun e u =>
    (∃ o, s.HasOwned c D declared m request o n.rootTable i back e.record u) ∧
      e.record.model = m.name ∧ ∃ errors,
        e = { (s.graph c.store).entity e.record declared with payloadErrors := errors })
    fun _ u => u.committed = D := by
  obtain ⟨hp, hx, -⟩ := hs
  have hmem := ofClass?_mem hm.model
  have hedited := Catalog.Edited.drafting (H := fun _ => False) hp hD (c.Opens s.registry)
  have hadmits : c.Editing D (c.Admits D s.registry s.rules (s.registry.IsHeard s.rules)) :=
    Catalog.Admits.editing hp hD
  have hread := (hedited.toReading.and (Catalog.Quiet.reading hp hD)).and hadmits.toReading
  have hstart : (c.Edited D (fun _ => False) (.start D) ∧ c.Quiet D (.start D)) ∧
      c.Admits D s.registry s.rules (s.registry.IsHeard s.rules) (.start D) :=
    ⟨⟨Catalog.edited_start D, Catalog.quiet_start D⟩, Catalog.carrying_start D _⟩
  -- The owner is the record of its row.
  have howner : Ends (s.ownerOf c.store (.relationship declared p readOnly (.type t q) rel)
      { params := [(q, .text (toString i))], suffix }) (.start D) (fun y u => ∃ o, ((c.Edited D
        (fun _ => False) u ∧ c.Carrying D (o.number + 1) (Entry.Pinned o n.rootTable i) u) ∧
        c.Admits D s.registry s.rules (s.registry.IsHeard s.rules) u) ∧
          (∃ e : Entity Ref, y = some (e, rel) ∧ e.record = o) ∧ ∀ z ∈ y, c.LinksTo m z)
      fun _ u => u.committed = D := by
    have hentity : Ends (s.ownerOf c.store (.relationship declared p readOnly (.type t q) rel)
        { params := [(q, .text (toString i))], suffix }) (.start D) (fun y u =>
          ∃ e : Entity Ref, y = some (e, rel) ∧ u.Holds e.record n.rootTable i)
        fun _ _ => True := by
      refine (reads_storedEntity hread (fun _ h => h.1.2) hp hD hx hn ht hrow q).ends_bind hstart
        (fun e u _ _ he => ⟨e, rfl, he.2.holds⟩) fun _ _ _ h => h.elim
    refine ((reads_ownerOf hp hD hread (fun _ h => h.1.2) hx hscope hm.model _ hstart).and
      hentity).imp (fun y u hy => ?_) fun _ _ h => h.1.1.1.2.committed
    obtain ⟨⟨hu, -, hlinks⟩, e, hy, hholds⟩ := hy
    exact ⟨e.record, ⟨⟨hu.1.1, hu.1.1.toDrafts.carrying_pinned hholds⟩, hu.2⟩, ⟨e, hy, rfl⟩, hlinks⟩
  have hone : back.isList = false := by
    obtain ⟨_, -, hspec⟩ := hp.linkSpec hmem (List.mem_of_find?_eq_some h.link)
    exact (hspec.reference column h.kind).1
  refine (ends_drafted_of (O := fun y o => (∃ e : Entity Ref, y = some (e, rel) ∧ e.record = o) ∧
      ∀ z ∈ y, c.LinksTo m z)
    (J := fun o r u => s.HasDraft c D declared m request r u ∧
      c.Carrying D (o.number + 1) (Entry.Pinned o n.rootTable i) u)
    (K := fun o r u => u.Points r back.name o) hp hD hx hscope hm hbuilt request _
    (fun o => hedited.and (Catalog.drafting_pinned hp hD _ o _ i))
    (fun o r => (editing_hasDraft hp hD r).and
      (Catalog.Carrying.editing hp hD (Entry.stable_pinned o _ i)))
    howner (fun _ _ hO => hO.2) (fun o fields given u hfields hmapped hu =>
      (ends_build_asked hm hp hD (hedited.and (Catalog.drafting_pinned hp hD _ o _ i))
        hscope.memberType_mem hbuilt hfields hmapped hu).imp
          (fun r v hv => ⟨⟨⟨hv.1.1.1, hv.1.2⟩, hv.1.1.2⟩, hv.2⟩) fun _ _ h => h)
    fun y o r u hO hu hr => ?_).imp (fun e u hu => ⟨hu.1.1, hu.2⟩) fun _ _ h => h
  obtain ⟨⟨e, rfl, rfl⟩, -⟩ := hO
  exact ends_attach_points ((editing_hasDraft hp hD r).and
      (Catalog.Carrying.editing hp hD (Entry.stable_pinned e.record n.rootTable i))) hp hD
    (hr ▸ hp.model?_eq hmem) h.link hone h.forth h.inverse hu

/-- A new member of an owner is stored with the number of the owner in its column and answered with
its full form, or the answer is the text of errors. -/
theorem ends_create_owned : Ends
    (s.create c.store (.relationship declared p readOnly (.type t q) rel) request
      { params := [(q, .text (toString i))], suffix }) (.start D) (fun r u =>
        Negotiation.IsErrorText s.settings s.detail r.body ∨
          s.Introduces c u.committed m suffix (fun get => get column = .int i) r)
      fun _ u => u.committed = D := by
  obtain ⟨hlow, hhigh⟩ := hD.number_range hrow
  have hrange : storeInteger i = .ok (.int i) := if_pos ⟨by omega, hhigh⟩
  have hmem := ofClass?_mem hm.model
  exact ends_create_of hD hs hmem ((ends_drafted_owned hD h hs hm hbuilt hn ht hrow hscope).imp
    (fun e u hu => ⟨hu.1.elim fun o hu' => ⟨_, _,
      storable_hasOwned hD h hs.plain hrange hmem hu.2.1, hu'⟩, hu.2⟩) fun _ _ h => h)

end Act

end Hypermedia
