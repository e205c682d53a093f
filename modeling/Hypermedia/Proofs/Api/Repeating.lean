import Hypermedia.Proofs.Api.Deleting
import Hypermedia.Proofs.Api.Guarding
import Hypermedia.Proofs.Graph.Wishing
import Hypermedia.Proofs.Route.Naming
import Hypermedia.Proofs.Session.Attaining
import Hypermedia.Proofs.Session.Holding

/-!
# Requests that are sent again

A request to change a record, whose payload describes no new ones, leaves the database as it is, or
grants what the payload wishes of the record that the address names (`Act.ends_update_grants`). That
record is the same in every state of the database where the address leads to one
(`Service.Targets.unique`), and a wish that is granted changes nothing when it is granted again. So
the request, sent again, leaves what it left the first time (`Site.respond_put_again`): it may be
refused then, or its address may lead nowhere any more, but it changes nothing.
-/

namespace Hypermedia

/-- A payload gives something to each field of a record once, and to a list after the links to one.
A table in which no column tells the kind of a row has rows of one model. -/
structure Catalog.Orderly (c : Catalog) (reg : Registry) : Prop where
  fields : ∀ t ∈ reg.types, ∀ m, t.model.bind c.ofClass? = some m → m.IsOrderly t.writableNames
  single : ∀ m ∈ c.models, ∀ n ∈ c.models, n.rootTable = m.rootTable → m.discriminator = none →
    n.name = m.name

theorem Model.IsOrderly.nodup {m : Model} {names : List String} (h : m.IsOrderly names) :
    names.Nodup :=
  h.imp And.left

namespace Service

/-- An address names the record of a number, which is one of a model and has this own type. -/
structure Targets (s : Service) (c : Catalog) (D : Database) (scope : Scope)
    (params : Scope.Params) (t : ResourceType) (m : Model) (k : Int) : Prop where
  mem : m ∈ c.models
  root : ∃ n, scope.memberType.model.bind c.ofClass? = some n ∧ m.rootTable = n.rootTable
  names : scope.Names params k
  type : s.registry.typeOf? m.recordClass = some t
  row : ∃ row, D.row? m.rootTable k = some row ∧ c.modelOfRow m row = .ok m

/-- The cells are those of a database in which what a payload wishes of the record that an address
names was granted. -/
def Grants (s : Service) (c : Catalog) (D : Database) (scope : Scope) (params : Scope.Params)
    (fields : List (String × Value)) (G : Cells) : Prop :=
  ∃ t m k, s.Targets c D scope params t m k ∧ (∀ column ∈ m.discriminator,
    G m.rootTable column k = D.cells m.rootTable column k) ∧
      G = Cells.grantAll c m k D.cells (t.wishes fields)

/-- A database has the rows of another one, in which what the payload of a request wishes of the
record that an address names was granted. -/
def Fulfils (s : Service) (c : Catalog) (D : Database) (scope : Scope) (request : Request)
    (params : Scope.Params) (D' : Database) : Prop :=
  ∃ fields, request.payload s.settings = .ok fields ∧ D'.numbers = D.numbers ∧
    s.Grants c D scope params fields D'.cells

/-- A database is the one from before a request to change a record, or the request is served at a
route to one and the database fulfils what it wishes. -/
def Updates (s : Service) (c : Catalog) (D : Database) (request : Request) (D' : Database) : Prop :=
  D' = D ∨ ∃ scope y, s.Reaches request scope y ∧ s.Fulfils c D scope request y.params D'

variable {s : Service} {c : Catalog} {D D' : Database} {scope : Scope} {params : Scope.Params}
  {t t' : ResourceType} {m m' : Model} {k k' : Int}

/-- In two states of the database an address names the same record, if the row that is named in the
first has the same kind in the second. -/
theorem Targets.unique {reg : Registry} (h : s.Targets c D scope params t m k) (hp : c.Plain)
    (hsingle : c.Orderly reg) (hD : c.Sound D) (h' : s.Targets c D' scope params t' m' k')
    (hkind : ∀ column ∈ m.discriminator,
      D'.cells m.rootTable column k = D.cells m.rootTable column k) : t' = t ∧ m' = m ∧ k' = k := by
  obtain ⟨n, hn, hroot⟩ := h.root
  obtain ⟨n', hn', hroot'⟩ := h'.root
  obtain rfl := Option.some.inj (hn.symm.trans hn')
  have hsame : m'.rootTable = m.rootTable := hroot'.trans hroot.symm
  obtain ⟨row, hrow, hmodel⟩ := h.row
  obtain ⟨row', hrow', hmodel'⟩ := h'.row
  obtain rfl := h'.names.unique h.names (by have := (hD.number_range hrow).1; omega)
  have hm : m' = m := by
    cases hcolumn : m.discriminator with
    | none =>
      have hname := hsingle.single m h.mem m' h'.mem hsame hcolumn
      exact Option.some.inj ((hp.model?_eq h'.mem).symm.trans (hname ▸ hp.model?_eq h.mem))
    | some column =>
      have hcolumn' := (hp.sameKind m' h'.mem m h.mem hsame).trans hcolumn
      have hcell := hkind column hcolumn
      rw [Database.cells_eq hrow, Database.cells_eq (hsame ▸ hrow')] at hcell
      simp only [Catalog.modelOfRow, hcolumn, hcolumn', hsame, hcell] at hmodel hmodel'
      exact Except.ok.inj (hmodel'.symm.trans hmodel)
  subst hm
  exact ⟨Option.some.inj (h'.type.symm.trans h.type), rfl, rfl⟩

/-- A request is served in one way. -/
theorem Reaches.unique {request : Request} {scope scope' : Scope} {y y' : Match}
    (h : s.Reaches request scope y) (h' : s.Reaches request scope' y') :
    scope' = scope ∧ y' = y := by
  obtain ⟨p, x, hmatch, htarget, hscope⟩ := h
  obtain ⟨p', x', hmatch', htarget', hscope'⟩ := h'
  obtain ⟨rfl, rfl⟩ := Prod.mk.inj (Option.some.inj (hmatch'.symm.trans hmatch))
  obtain rfl := Endpoint.route.inj (htarget'.symm.trans htarget)
  exact ⟨Option.some.inj (hscope'.symm.trans hscope), rfl⟩

/-- Granting what is granted already changes nothing. -/
theorem Grants.again {reg : Registry} {fields : List (String × Value)} {G : Cells}
    (h : s.Grants c D scope params fields D'.cells) (hp : c.Plain) (hsingle : c.Orderly reg)
    (hD : c.Sound D) (h' : s.Grants c D' scope params fields G) : G = D'.cells := by
  obtain ⟨t, m, k, htargets, hkind, hcells⟩ := h
  obtain ⟨t', m', k', htargets', -, rfl⟩ := h'
  obtain ⟨rfl, rfl, rfl⟩ := htargets.unique hp hsingle hD htargets' hkind
  funext table column j
  exact Cells.grantAll_eq_self (congrFun₃ hcells table column j)

end Service

namespace Act

open Service

variable {s : Service} {c : Catalog} {D : Database} (hp : c.Plain) (hD : c.Sound D)
  (hpaired : c.Paired) (hx : c.Exposed s.registry s.rules) (horderly : c.Orderly s.registry)
  {scope : Scope} (hscope : scope.Formed s.registry) (hmutable : scope.isMutable = true)
  {request : Request} (hrefers : ∀ fields, request.payload s.settings = .ok fields →
    s.registry.RefersOnly fields) (x : Match)

include hp hD hpaired hx horderly hscope hmutable hrefers

/-- Changing an entity leaves a session that aims at what the payload wishes, if nothing is found to
be wrong with it. -/
theorem ends_changed_aimed : Ends (s.changed c.store scope request x) (.start D)
    (fun e t => e.payloadErrors = [] → ∃ fields G, request.payload s.settings = .ok fields ∧
      s.Grants c D scope x.params fields G ∧ ∃ K N, c.Aimed D K e.record N G (fun _ _ => G) t)
    fun _ _ => True := by
  have hI := Catalog.Viewing.reading (H := fun _ => False) hp hD
  have hstart := Catalog.viewing_start (c := c) D
  unfold changed
  rw [ends_bind]
  refine ((reads_scopeEntity hI (fun _ h => h.toQuiet) hp hD hx hscope x.params hstart).and
    (reads_scopeNumber hI (fun _ h => h.toQuiet) hp hD hx hscope hmutable x.params hstart)).imp
      (fun e t h => ?_) fun _ _ _ => trivial
  obtain ⟨⟨ht, -, ⟨m, k, row, htyped⟩, -⟩, -, -, n, j, hn, hnames, hnumber⟩ := h
  obtain ⟨hroot, rfl⟩ := ht.number_unique htyped.holds hnumber
  obtain ⟨hmem, hpresents⟩ := hx.presents_of_typeOf htyped.mem htyped.type
  have hmodel : c.model? e.record.model = some m := htyped.name ▸ hp.model?_eq htyped.mem
  have htargets : s.Targets c D scope x.params e.type m k := by
    obtain ⟨y, hy, href, hst, -, hkey⟩ := htyped.holds
    obtain ⟨i, row', hi, hrow', hkind⟩ := (ht.draft y hy).stored hst
    obtain rfl : k = i := by simpa [hkey] using hi
    have hymodel := ht.toDrafts.model_of_known? hp (href ▸ ht.toDrafts.known?_eq hy) htyped.mem
      htyped.name
    rw [hymodel] at hrow' hkind
    exact ⟨htyped.mem, ⟨n, hn, hroot⟩, hnames, htyped.type, row', hrow', hkind⟩
  rw [monadOfExcept_eq]
  refine (keeps_ofExcept (P := fun fields => request.payload s.settings = .ok fields)
    fun _ h => h).ends_bind (I := fun u => u = t) rfl (fun fields u hu hfields => ?_)
      fun _ _ _ => trivial
  subst hu
  -- From here on the record is held, and what is kept is still as it was read.
  obtain ⟨hviewing, hheld⟩ := ht.hold htyped.holds
  have horder := horderly.fields _ hmem m hpresents.model
  change Ends ((modify fun v => v.keep [e.record]) >>= fun _ => _) u _ _
  rw [ends_bind, ends_modify]
  refine (reads_mapPayload_wishes (Catalog.Viewing.reading hp hD) hp hD hmem
    hpresents.toDescribes horder.nodup (hrefers fields hfields)).ends_bind hviewing
      (fun payload v hv huv hmeans => ?_) fun _ _ _ _ => trivial
  by_cases herrors : payload.errors = []
  swap
  · rw [ends_bind]
    exact (ends_exec _ v).imp (fun _ _ _ h => absurd h herrors) fun _ _ _ => trivial
  have hmeans := hmeans herrors
  have haimed := Catalog.Quiet.aimed (N := fun _ _ => True) hp hD hv.toQuiet hv.edited hv.stored
    fun _ _ _ h => h
  rw [ends_bind]
  refine (ends_assign hp hD hpaired hmodel hmeans ?_ haimed (hheld.mono huv) (fun _ _ _ => trivial)
    fun _ _ _ _ _ _ => ⟨fun _ => trivial, rfl⟩).imp (fun _ w ⟨N, hw⟩ => ?_) fun _ _ _ => trivial
  · rw [Catalog.names_eq_of_means hmeans]
    exact List.Pairwise.sublist (ResourceType.names_wishes_sublist _ _) horder
  · exact fun _ => ⟨fields, _, hfields, ⟨e.type, m, k, htargets, fun column hcolumn =>
      Catalog.grantAll_kind hp htyped.mem hmeans hcolumn k k, rfl⟩, _, N, hw⟩

/-- A request to change a record leaves the database as it is, or grants what its payload wishes of
the record that the address names. -/
theorem ends_update_grants : Ends (s.update c.store scope request x) (.start D)
    (fun _ t => t.committed = D ∨ s.Fulfils c D scope request x.params t.committed)
    fun _ t => t.committed = D ∨ s.Fulfils c D scope request x.params t.committed := by
  have hleaves : ∀ {t : Session}, t.committed = D →
      t.committed = D ∨ s.Fulfils c D scope request x.params t.committed := Or.inl
  rw [update_eq]
  refine ends_prepared (fun _ _ h => hleaves h) (((ends_changed hp hD hx hscope request x).and
    (ends_changed_aimed hp hD hpaired hx horderly hscope hmutable hrefers x)).imp
      (fun _ _ h => h) fun _ _ h => h.1) fun format e t _ ⟨⟨m, k, hchanged⟩, haimed⟩ => ?_
  by_cases herrors : e.payloadErrors = []
  · obtain ⟨fields, G, hfields, hgrants, K, N, ht⟩ := haimed herrors
    have hreading := Catalog.Aimed.reading (K := K) (r := e.record) (N := N) (G := G) hp hD hpaired
    refine ends_judged hp hD (B := c.Edited D (· = e.record)) (fun _ _ => hleaves)
      (((hreading.keepsGraph hp hD s.registry s.rules).valid e _ t ht).imp
        (fun _ _ h => ⟨fun _ => h.1.toEdited, fun _ => h.1⟩) fun _ _ h => h.committed)
      (fun _ => id) Catalog.Aimed.enrolling (fun _ h => h.toEdited)
      (fun _ h _ => h.yields hp hD hpaired) (fun u hu => ?_) fun u v _ hv => ?_
    · exact (ends_refuse hp hD hu format e .update 200 x).imp (fun _ _ => hleaves)
        fun _ _ => hleaves
    · obtain ⟨w, z, hw, -, ⟨hrewriting, rfl⟩, hdb, -⟩ := hv.written
      have hgranted : v.db = D ∨ s.Fulfils c D scope request x.params v.db := Or.inr
        ⟨fields, hfields, by rw [hdb, hrewriting.numbered, hw.db], hdb ▸ hgrants⟩
      exact (keeps_showStored hp hv.sound e .update x format 200 [] v hv.quiet).imp
        (fun _ _ h => h.1.committed ▸ hgranted) fun _ _ h => h.committed ▸ hgranted
  -- A payload with errors is refused.
  cases hknown : t.known? e.record with
  | none =>
    exact (ends_revise_unknown hp hD hchanged.confined hknown format x).imp (fun _ _ => hleaves)
      fun _ _ => hleaves
  | some y =>
    obtain ⟨-, hpresents⟩ := hx.presents_of_typeOf hchanged.mem hchanged.type
    have hmodel := hchanged.confined.1.toDrafts.model_of_known? hp hknown hchanged.mem hchanged.name
    refine ends_judged (H := (· = e.record)) hp hD (B := c.Edited D (· = e.record))
      (V := fun _ => False) (Y := fun _ => False) (W := fun _ _ => False) (fun _ _ => hleaves)
      ((ends_valid hp hD (Catalog.Edited.reading hp hD) (by decide) hknown (hmodel ▸ hpresents)
        hchanged.confined.1).imp (fun _ _ h => ⟨fun _ => h.1, fun hvalid =>
          herrors (h.2 hvalid).1⟩) fun _ _ h => h)
      (fun _ => id) ⟨False.elim, fun _ _ => False.elim⟩ (fun _ => False.elim) (fun _ => False.elim)
      (fun u hu => ?_) fun _ _ => False.elim
    exact (ends_refuse hp hD hu format e .update 200 x).imp (fun _ _ => hleaves) fun _ _ => hleaves

omit hscope hmutable in
/-- A request to change a record leaves the database as it is or grants what it wishes. -/
theorem ends_answer_put (hs : s.Exposes) (hmethod : request.method = "PUT") :
    Ends (s.answer c.store request) (.start D) (fun _ t => s.Updates c D request t.committed)
      fun _ _ => False := by
  refine ends_answer_of (E := fun _ t => s.Updates c D request t.committed)
    (fun _ _ ht _ => Or.inl ht) hs (fun _ _ _ ht _ => ht) (fun _ _ _ ht => ht) (fun _ _ _ ht => ht)
      fun p y hchosen hplace hpost => ?_
  have hput : Method.put ∈ p.methods := by
    have hserved := List.find?_some hchosen
    rw [hmethod] at hserved
    exact Place.mem_methods_of_contains (y := .put) hserved
  have hmeans : methodOf request.method = .put := by rw [hmethod]; rfl
  refine ends_atPlace_of (fun _ _ ht _ => Or.inl ht) (fun _ _ => Or.inl) hp hD hs hplace hpost
    request y fun act hact => ?_
  rw [hmeans] at hact
  cases hact with
  | @update x scope htarget hscope hformed =>
    have hmutable : scope.isMutable = true := by
      obtain ⟨depth, -, hroutes⟩ := hs.routes
      rcases hs.target hplace with ⟨x', hx, htarget', hmethods⟩ | hschema
      · obtain rfl : x' = x := by simpa using htarget'.symm.trans htarget
        exact Tree.isMutable_of_mem_routes hroutes hx (hmethods ▸ hput) (by decide) hscope
      · rw [hschema] at htarget
        cases htarget
    have hupdates : ∀ t : Session, t.committed = D ∨ s.Fulfils c D scope request y.params
        t.committed → s.Updates c D request t.committed := fun t ht =>
      ht.imp_right fun ht => ⟨scope, y, ⟨p, x, hchosen, htarget, hscope⟩, ht⟩
    exact (ends_update_grants hp hD hpaired hx horderly hformed hmutable hrefers y).imp
      (fun _ => hupdates) fun _ => hupdates

end Act

namespace Site

variable {site : Site} {D : Database} {request : Request}

/-- A request to change a record, sent again, changes nothing. -/
theorem respond_put_again (h : site.Heeds) (hpaired : site.catalog.Paired)
    (horderly : site.catalog.Orderly site.service.registry) (hD : site.catalog.Sound D)
    (hmethod : request.method = "PUT")
    (hrefers : ∀ fields, request.payload site.service.settings = .ok fields →
      site.service.registry.RefersOnly fields) :
    (site.respond (site.respond D request).1 request).1 = (site.respond D request).1 := by
  have hupdates : ∀ {D : Database}, site.catalog.Sound D →
      site.service.Updates site.catalog D request (site.respond D request).1 := fun hD => by
    obtain ⟨t, ht, hupdates⟩ := respond_of_answer
      (Act.ends_answer_put h.plain hD hpaired h.exposed horderly hrefers h.exposes hmethod)
    exact ht ▸ hupdates
  have hD' := (respond_obeys h hD request).sound
  have hD'' := (respond_obeys h hD' request).sound
  rcases hupdates hD with hkept | ⟨scope, y, hreaches, fields, hfields, -, hgrants⟩
  · rw [hkept]
    exact hkept
  rcases hupdates hD' with
    hkept | ⟨scope', y', hreaches', fields', hfields', hnumbers, hgrants'⟩
  · exact hkept
  obtain ⟨rfl, rfl⟩ := hreaches.unique hreaches'
  obtain rfl := Except.ok.inj (hfields'.symm.trans hfields)
  exact hD''.eq_of_cells hD' h.plain hnumbers (hgrants.again h.plain horderly hD hgrants')

end Site

end Hypermedia
