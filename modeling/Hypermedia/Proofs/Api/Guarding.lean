import Hypermedia.Proofs.Api.Answering
import Hypermedia.Proofs.Graph.Guarding

/-!
# No request gets around the rules

Creating, changing and removing each obey the rules of the types (`Act.ends_create_obeys`,
`Act.ends_update_obeys`, `Act.ends_remove_obeys`), whatever the payload describes. Nothing else
writes, so every request obeys them (`Site.respond_obeys`), and what the rules see to in a column
holds in every state that requests lead to (`Site.column_respondAll`).

Here the rules may be for new records too. A new record that is stored may then be shown as faulty,
since the rules judge the default that the store put where nothing was given, or not be shown at
all; what was stored obeys the rules all the same.
-/

namespace Hypermedia

namespace Service

/-- What is committed was made of a database as the rules of the service allow. -/
def Obeys (s : Service) (c : Catalog) (D : Database) (t : Session) : Prop :=
  c.Obeys s.registry s.rules D t.committed

theorem Obeys.of_eq {s : Service} {c : Catalog} {D db : Database} {t : Session}
    (h : c.Obeys s.registry s.rules D db) (ht : t.committed = db) : s.Obeys c D t := by
  unfold Obeys
  rwa [ht]

theorem Obeys.of_kept {s : Service} {c : Catalog} {D : Database} {t : Session} (hD : c.Sound D)
    (ht : t.committed = D) : s.Obeys c D t :=
  .of_eq (.refl hD _ _) ht

end Service

namespace Act

open Service

variable {s : Service} {c : Catalog} {D : Database}

/-! ## The methods that write -/

section

variable (hp : c.Plain) (hD : c.Sound D)

include hp hD

/-- What is read after storing leaves the database. -/
theorem keeps_showStored (e : Entity Ref) (y : Context) (x : Match) (format : Value)
    (status : Nat) (headers : List (String × String)) : Keeps (c.Quiet D) (do
      let body ← (s.writer x.suffix).entity (s.graph c.store) e y false
      s.reply format body status headers : Act Response) fun _ => True :=
  (((Catalog.Quiet.reading hp hD).keepsGraph hp hD s.registry s.rules).entity _ e y false).bind
    fun _ _ => keeps_reply _ _ _ _

theorem keeps_welcome (format : Value) (e : Entity Ref) (x : Match) :
    Keeps (c.Quiet D) (s.welcome c.store format e x) fun _ => True := by
  have hg := (Catalog.Quiet.reading hp hD).keepsGraph hp hD s.registry s.rules
  have hlocation : Keeps (c.Quiet D) (s.locationOf c.store e x) fun _ => True :=
    (hg.identity e.record).bind fun _ _ => keeps_ite (fun _ => keeps_pure trivial)
      fun _ => (hg.entityUri e s.root x.suffix).bind fun _ _ => keeps_pure trivial
  exact hlocation.bind fun headers _ => keeps_showStored hp hD e .create x format 201 headers

variable (hx : c.Exposed s.registry s.rules) (hheard : s.registry.IsHeard s.rules) {scope : Scope}
  (hscope : scope.Formed s.registry) (request : Request) (x : Match)

include hx hscope

/-- Removing obeys the rules for removals. -/
theorem ends_remove_obeys : Ends (s.remove c.store scope x) (.start D)
    (fun _ t => s.Obeys c D t) fun _ t => s.Obeys c D t := by
  refine (ends_remove_of hp hD hx hscope x (fun _ _ _ => .of_kept hD) fun u hu => ?_).imp
    (fun _ _ h => h) fun _ _ => .of_kept hD
  obtain ⟨_, m, k, row, ⟨_, _, -, hknown, -⟩, hallows, hloses⟩ := hu
  exact hloses.obeys fun row' hrow' => Option.some.inj (hknown.row.symm.trans hrow') ▸ hallows

include hheard

/-- Creating obeys the rules for new records. -/
theorem ends_create_obeys (hmutable : scope.isMutable = true) :
    Ends (s.create c.store scope request x) (.start D)
      (fun _ t => s.Obeys c D t) fun _ t => s.Obeys c D t := by
  have hconfined := Catalog.drafting_confined hp hD s.registry (fun _ => False) fun _ _ _ => False
  rw [create_eq]
  refine ends_prepared (fun _ _ h => Obeys.of_kept hD h)
    (ends_drafted_confined hp hD hx hscope hmutable request x) fun format e t _ h => ?_
  obtain ⟨ht, hadmits, m, hm, hname, errors, he⟩ := h
  have hmem := ofClass?_mem hm.model
  obtain ⟨type, htype, -⟩ := hx.typeOf m hmem
  obtain ⟨-, hpresents⟩ := hx.presents_of_typeOf hmem htype
  have hetype : e.type = type := by
    rw [he]
    exact Catalog.type_entity hp hmem hname htype scope.memberType
  obtain ⟨z, hz, hzref, -⟩ := hadmits.fresh
  have hknown : t.known? e.record = some z := hzref ▸ ht.1.toDrafts.known?_eq hz
  have hzmodel := ht.1.toDrafts.model_of_known? hp hknown hmem hname
  have hbut : c.Editing D (c.AdmitsBut D s.registry s.rules
      (s.registry.IsHeard s.rules ∧ e.payloadErrors = []) e.record) :=
    Catalog.AdmitsBut.editing hp hD
  have hI := hconfined.toReading.and hbut.toReading
  refine ends_judged hp hD (B := c.Confined s.registry D (fun _ => False) fun _ _ _ => False)
    (V := c.Judged s.registry s.rules D (fun _ => False) fun _ _ _ => False)
    (fun _ _ h => Obeys.of_kept hD h)
    ((ends_valid hp hD hI (by decide) hknown (hetype ▸ hzmodel ▸ hpresents) ⟨ht, hadmits⟩).imp
      (fun _ u h => ⟨fun _ => h.1.1, fun hvalid => ?judged⟩) fun _ _ h => h)
    (fun _ => id) (enrolling (Catalog.Judged.editing hp hD)) (fun _ h => h.1.1)
    (fun _ h _ => h.1.granting hp hD)
    (fun u hu => (ends_refuse hp hD hu.1 format e .create 201 x).imp
      (fun _ _ h => Obeys.of_kept hD h) fun _ _ h => Obeys.of_kept hD h)
    fun u v _ hv => ?shown
  case judged =>
    obtain ⟨⟨hu, hadmits⟩, hvalid'⟩ := h
    obtain ⟨hnil, z', hz', hmodel, hpass⟩ := hvalid' hvalid
    refine ⟨hu, hadmits.admits hz' (hmodel ▸ hzmodel ▸ htype) fun _ => ⟨⟨hheard, hnil⟩, ?_⟩⟩
    exact hetype ▸ hpass
  case shown =>
    have hobeys := hv.obeys hx fun _ _ _ _ h _ => h.elim
    exact (keeps_welcome hp hv.sound format _ x v hv.quiet).imp
      (fun _ _ h => .of_eq hobeys h.1.committed) fun _ _ h => .of_eq hobeys h.committed

omit hscope in
/-- Storing what was changed obeys the rules for changes, and those for new records. -/
theorem ends_revise_obeys {e : Entity Ref} {m : Model} {k : Int} {t : Session}
    (h : s.Changed c D scope request x e m k t) {z : Entry} (hknown : t.known? e.record = some z)
    (format : Value) : Ends (s.revise c.store format e x) t
      (fun _ u => s.Obeys c D u) fun _ u => s.Obeys c D u := by
  have hrevising : c.Drafting D (c.Opens s.registry) (c.Revising s.registry D
      (s.MayChange c D scope request x) e.record m.rootTable k) := Catalog.drafting_revising hp hD
  have hadmits : c.Editing D (c.Admits D s.registry s.rules
      (s.registry.IsHeard s.rules ∧ e.payloadErrors = [])) := Catalog.Admits.editing hp hD
  have hI := hrevising.toReading.and hadmits.toReading
  obtain ⟨-, hpresents⟩ := hx.presents_of_typeOf h.mem h.type
  have hzmodel := h.confined.1.toDrafts.model_of_known? hp hknown h.mem h.name
  unfold revise
  refine ends_judged hp hD
    (B := c.Confined s.registry D (· = e.record) (s.MayChange c D scope request x))
    (V := fun u => c.Judged s.registry s.rules D (· = e.record)
      (s.MayChange c D scope request x) u ∧ ∃ y ∈ u.entries, y.ref = e.record ∧ y.model = m ∧
        y.key = [.int k] ∧ e.type.Passes s.rules .update (y.cell D))
    (fun _ _ h => Obeys.of_kept hD h)
    ((ends_valid hp hD hI (by decide) hknown (hzmodel ▸ hpresents)
      ⟨⟨h.confined, h.pinned⟩, h.admits⟩).imp
        (fun _ u hu => ⟨fun _ => hu.1.1.1, fun hvalid => ?judged⟩) fun _ _ h => h)
    (fun _ => And.left) (enrolling (Catalog.Judged.editing hp hD)) (fun _ h => h.1.1)
    (fun _ h _ => h.1.granting hp hD)
    (fun u hu => (ends_refuse hp hD hu.1 format e .update 200 x).imp
      (fun _ _ h => Obeys.of_kept hD h) fun _ _ h => Obeys.of_kept hD h)
    fun u v hu hv => ?shown
  case judged =>
    obtain ⟨⟨⟨hu, hpinned⟩, hadmits⟩, hvalid'⟩ := hu
    obtain ⟨hnil, y, hy, hymodel, hpass⟩ := hvalid' hvalid
    obtain ⟨hymem, hyref⟩ := Session.known?_mem hy
    exact ⟨⟨hu, hadmits.mono fun _ => ⟨hheard, hnil⟩⟩, y, hymem, hyref, hymodel.trans hzmodel,
      (hpinned.carried y hymem hyref).2, hpass⟩
  case shown =>
    obtain ⟨hu, y, hymem, hyref, rfl, hykey, hpass⟩ := hu
    obtain ⟨n, j, row, hstored⟩ := hv.quiet.known_of_stores hv.stored
    obtain rfl := hstored.model_eq hp h.mem h.name
    have hystored := hu.1.1.held y hymem hyref
    -- The rules say about what was stored what they said before.
    have hpass' := passes_of_persisted hp hu.1.1 hv hymem hyref hystored hpresents hstored hpass
    obtain ⟨y', hy', hyref', -, -, hykey'⟩ := hstored.holds
    have hkey := hv.key_eq hymem hystored hy' (hyref'.trans hyref.symm)
    obtain rfl : j = k := by simpa [hykey', hykey] using hkey
    have hobeys := hv.obeys hx fun table i column row' hmay hrow' => by
      obtain ⟨rfl, rfl⟩ := h.own table i column hmay
      obtain rfl := Option.some.inj (hstored.row.symm.trans hrow')
      exact ⟨_, e.type, hstored.rowHasType hp hv.quiet.toDrafts h.type, hpass'⟩
    exact (keeps_showStored hp hv.sound e .update x format 200 [] v hv.quiet).imp
      (fun _ _ h => .of_eq hobeys h.1.committed) fun _ _ h => .of_eq hobeys h.committed

/-- Changing obeys the rules. -/
theorem ends_update_obeys : Ends (s.update c.store scope request x) (.start D)
    (fun _ t => s.Obeys c D t) fun _ t => s.Obeys c D t := by
  rw [update_eq]
  refine ends_prepared (fun _ _ h => Obeys.of_kept hD h)
    (ends_changed hp hD hx hscope request x) fun format e t _ h => ?_
  obtain ⟨m, k, hchanged⟩ := h
  cases hknown : t.known? e.record with
  | none =>
    exact (ends_revise_unknown hp hD hchanged.confined hknown format x).imp
      (fun _ _ h => Obeys.of_kept hD h) fun _ _ h => Obeys.of_kept hD h
  | some z => exact ends_revise_obeys hp hD hx hheard request x hchanged hknown format

end

/-- Every request obeys the rules. -/
theorem ends_answer_obeys (hp : c.Plain) (hD : c.Sound D) (hx : c.Exposed s.registry s.rules)
    (hheard : s.registry.IsHeard s.rules) (hs : s.Exposes) (request : Request) :
    Ends (s.answer c.store request) (.start D) (fun _ t => s.Obeys c D t) fun _ _ => False := by
  refine ends_answer_of (E := fun _ t => s.Obeys c D t) (fun _ _ h _ => .of_kept hD h) hs
    (fun _ _ _ h _ => h) (fun _ _ _ h => h) (fun _ _ _ h => h) fun p y _ hplace hpost => ?_
  generalize methodOf request.method = method at hpost
  refine ends_atPlace_of (fun _ _ h _ => .of_kept hD h) (fun _ _ => .of_kept hD) hp hD hs hplace
    hpost request y fun act hact => ?_
  cases hact with
  | create _ _ hformed hmutable =>
    exact ends_create_obeys hp hD hx hheard hformed request y hmutable
  | update _ _ hformed => exact ends_update_obeys hp hD hx hheard hformed request y
  | remove _ _ hformed => exact ends_remove_obeys hp hD hx hformed y

end Act

namespace Site

open Service

/-- A site whose rules are heard: it exposes the records of a plain catalog. -/
structure Heeds (site : Site) : Prop where
  plain : site.catalog.Plain
  exposed : site.catalog.Exposed site.service.registry site.service.rules
  heard : site.service.registry.IsHeard site.service.rules
  exposes : site.service.Exposes

variable {site : Site} {D : Database}

/-- The rules of a site are heard if those of its registry are. -/
theorem Heeds.of_serve {c : Catalog} {reg : Registry} {rules : RuleBook} {settings : Settings}
    {detail : Detail} {mount : String} (h : Site.serve c reg rules settings detail mount = .ok site)
    (hp : c.Plain) (hx : c.Exposed reg rules) (hheard : reg.IsHeard rules) :
    site.Heeds ∧ site.catalog = c ∧ site.service.registry = reg ∧ site.service.rules = rules := by
  simp only [Site.serve, bind_eq_ok, pure_eq_ok] at h
  obtain ⟨s, hs, rfl⟩ := h
  obtain ⟨hexposes, rfl, rfl, -⟩ := Service.expose_eq_ok hs
  exact ⟨⟨hp, hx, hheard, hexposes⟩, rfl, rfl, rfl⟩

/-- No request gets around the rules. -/
theorem respond_obeys (h : site.Heeds) (hD : site.catalog.Sound D) (request : Request) :
    site.catalog.Obeys site.service.registry site.service.rules D (site.respond D request).1 := by
  obtain ⟨t, ht, hobeys⟩ := respond_of_answer
    (Act.ends_answer_obeys h.plain hD h.exposed h.heard h.exposes request)
  exact ht ▸ hobeys

/-- The database is sound after requests one after the other. -/
theorem Heeds.sound_respondAll (h : site.Heeds) (requests : List Request) :
    ∀ {D : Database}, site.catalog.Sound D → site.catalog.Sound (site.respondAll D requests).1 := by
  induction requests with
  | nil => exact fun hD => hD
  | cons request requests ih => exact fun hD => ih (respond_obeys h hD request).sound

/-- What all rows have in a column that refers to no other record they have after requests one
after the other, if the rules for new records and for changes see to it. -/
theorem column_respondAll (h : site.Heeds) {u : Table} (hu : u ∈ site.catalog.tables) {x : Column}
    (hx : x ∈ u.columns) (hto : x.refersTo = none) {Q : Value → Prop}
    (hnew : ∀ row, site.catalog.AllowsNew site.service.registry site.service.rules u.name row →
      Q (Row.get row x.name))
    (hupdate : ∀ row, site.catalog.Allows site.service.registry site.service.rules .update u.name
      row → Q (Row.get row x.name)) (requests : List Request) :
    ∀ {D : Database}, site.catalog.Sound D →
      (∀ k row, D.row? u.name k = some row → Q (Row.get row x.name)) →
        ∀ k row, (site.respondAll D requests).1.row? u.name k = some row →
          Q (Row.get row x.name) := by
  induction requests with
  | nil => exact fun _ hQ => hQ
  | cons request requests ih =>
    intro D hD hQ
    have hobeys := respond_obeys h hD request
    exact ih hobeys.sound (hobeys.column hu hx hto hnew hupdate hQ)

end Site

end Hypermedia
