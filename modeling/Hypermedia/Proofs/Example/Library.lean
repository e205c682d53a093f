import Hypermedia.Example.Library
import Hypermedia.Proofs.Api.Retrieving
import Hypermedia.Proofs.Graph.Exposing

/-!
# The small library stays in order

The catalog of the library is plain and its types present the models, so a site of it keeps its
database sound whatever is requested. A request that only reads, and one whose answer tells of a
fault or of errors, leaves all tables as they were (`Library.kept_of_read_or_refused`). The
records that are stored have what the models ask for, and each of them can be read
(`Library.inOrder_and_shown`). Requests that create and change records leave the properties of all
others as they are, whatever is nested in their payloads (`Library.kept_but_given`).
-/

namespace Hypermedia

namespace Library

/-! ## The declarations -/

theorem plain : catalog.Plain where
  model_names := by decide
  table_names := by decide
  column_names := by decide
  key := by decide
  numbered := by decide
  simple := by decide
  storeDefault := by decide
  reference := by decide
  members := by decide
  tables_eq := by decide
  ordered := by decide
  keyNames := by decide
  keyTypes := by decide
  columns := by decide
  own_names := by decide
  shapes := by decide
  default := by decide
  sameKind := by decide
  kind := by decide
  identity := by decide
  kinds := by decide
  link_names := by decide
  link := by decide

theorem tables_empty : ∀ t ∈ catalog.tables, t.rows = [] := by decide

theorem exposed {reg : Registry} (h : registry = .ok reg) : catalog.Exposed reg rules := by
  have hcheck : (registry.toOption.map fun reg => catalog.isExposed reg rules) = some true := by
    decide
  rw [h] at hcheck
  exact Catalog.exposed_of_isExposed plain (Option.some.inj hcheck)

/-- The rules are for changes and removals. -/
theorem admits {reg : Registry} (h : registry = .ok reg) : ∀ t ∈ reg.types, t.AdmitsAll := by
  have hcheck : (registry.toOption.map fun reg => reg.types.all fun t =>
      t.validators.all fun v => !v.create) = some true := by
    decide
  rw [h] at hcheck
  intro t ht v hv
  simpa using List.all_eq_true.1 (List.all_eq_true.1 (Option.some.inj hcheck) t ht) v hv

/-- The names in the full forms of a type differ. -/
theorem fieldNames_nodup {reg : Registry} (h : registry = .ok reg) :
    ∀ t ∈ reg.types, t.fieldNames.Nodup := by
  have hcheck : (registry.toOption.map fun reg =>
      decide (∀ t ∈ reg.types, t.fieldNames.Nodup)) = some true := by
    decide
  rw [h] at hcheck
  exact of_decide_eq_true (Option.some.inj hcheck)

/-! ## The site -/

variable {settings : Settings} {detail : Detail} {mount : String} {site : Site}

/-- A site of the library has an exposed service for the catalog. -/
theorem site_eq_ok (h : Library.site settings detail mount = .ok site) :
    site.catalog = catalog ∧ registry = .ok site.service.registry ∧ site.service.rules = rules ∧
      site.service.Exposes ∧ site.service.settings = settings ∧ site.service.detail = detail ∧
        site.service.mount = mount := by
  simp only [Library.site, Site.serve, bind_eq_ok, pure_eq_ok] at h
  obtain ⟨reg, hreg, s, hs, rfl⟩ := h
  obtain ⟨hexposes, rfl, hrules, hsettings, hdetail, hmount⟩ := Service.expose_eq_ok hs
  exact ⟨rfl, hreg, hrules, hexposes, hsettings, hdetail, hmount⟩

theorem stands (hsettings : settings.CanReply)
    (h : Library.site settings detail mount = .ok site) : site.Stands := by
  obtain ⟨hcatalog, hreg, hrules, hexposes, rfl, -, -⟩ := site_eq_ok h
  refine ⟨⟨?_, ?_, hsettings, admits hreg⟩, hexposes⟩
  · rw [hcatalog]
    exact plain
  · rw [hcatalog, hrules]
    exact exposed hreg

/-- The database is sound after any requests. -/
theorem sound_reached (hsettings : settings.CanReply)
    (h : Library.site settings detail mount = .ok site) (requests : List Request) :
    catalog.Sound (site.reached requests) := by
  obtain ⟨hcatalog, -⟩ := site_eq_ok h
  have hempty := tables_empty
  rw [← hcatalog] at hempty ⊢
  exact Site.sound_reached (stands hsettings h) hempty requests

/-! ## What is refused is not stored -/

/-- In every state that requests lead to, a request that only reads, and one whose answer tells
of a fault or of errors, leaves all tables as they were. -/
theorem kept_of_read_or_refused (hsettings : settings.CanReply)
    (hsite : Library.site settings detail mount = .ok site) (requests : List Request)
    (request : Request)
    (h : request.method ∈ ["GET", "HEAD", "OPTIONS"] ∨
      400 ≤ (site.respond (site.reached requests) request).2.status ∨
      Negotiation.IsErrorText settings detail
        (site.respond (site.reached requests) request).2.body) :
    (site.respond (site.reached requests) request).1 = site.reached requests := by
  obtain ⟨hcatalog, -, -, -, rfl, rfl, -⟩ := site_eq_ok hsite
  have hsound := sound_reached hsettings hsite requests
  rw [← hcatalog] at hsound
  obtain ⟨-, hkept | ⟨hwrites, haccepts⟩⟩ :=
    Site.respond_settles (stands hsettings hsite) hsound request
  · exact hkept
  · rcases h with hread | hstatus | htext
    · have hread : Service.methodOf request.method = .get := by
        simp only [List.mem_cons, List.not_mem_nil, or_false] at hread
        rcases hread with hm | hm | hm <;> rw [hm] <;> rfl
      exact absurd hread hwrites
    · exact absurd haccepts.status (by omega)
    · exact absurd htext haccepts.text

theorem canReply_ofApp_nil : (Settings.ofApp []).CanReply :=
  ⟨fun _ => ⟨"json", rfl, rfl⟩, 2, rfl⟩

theorem exists_site : ∃ site, Library.site (.ofApp []) .brief "" = .ok site := by
  have hsome : (Library.site (.ofApp []) .brief "").toOption.isSome = true := by decide +kernel
  obtain ⟨site, hsite⟩ := Option.isSome_iff_exists.1 hsome
  exact ⟨site, toOption_eq_some.1 hsite⟩

/-- A request for a new author. -/
def newAuthor (name : String) : Request :=
  { method := "POST", path := "/authors".toList, queryNames := []
    body := (Json.object [("name", .text name)]).compact }

/-- A request for a new author with a permanent book. -/
def newAuthorOfBook : Request :=
  { method := "POST", path := "/authors".toList, queryNames := []
    body := (Json.object [("name", .text "Ann"),
      ("books", .array [.object [("title", .text "Permanent")]])]).compact }

/-- A request that the first author be removed. -/
def authorRemoval : Request :=
  { method := "DELETE", path := "/authors/1".toList, queryNames := [], body := "" }

/-- A request for a new author without a name. -/
def namelessAuthor : Request :=
  { newAuthor "" with body := (Json.object []).compact }

/-- The author of a book cannot be removed, and an author without a name is answered with errors
that the status does not tell of. -/
theorem answers_refused (hsite : Library.site (.ofApp []) .brief "" = .ok site) :
    (site.respond (site.reached [newAuthorOfBook]) authorRemoval).2.status = 409 ∧
      (site.respond (site.reached [newAuthorOfBook]) namelessAuthor).2.status = 201 ∧
      Negotiation.IsErrorText (.ofApp []) .brief
        (site.respond (site.reached [newAuthorOfBook]) namelessAuthor).2.body := by
  have hcheck : ((Library.site (.ofApp []) .brief "").toOption.bind fun site =>
      (site.computed? site.emptyDatabase newAuthorOfBook).map fun db =>
        ((site.answered? db authorRemoval).map Response.status,
          (site.answered? db namelessAuthor).map fun r => decide (r.status = 201 ∧
            Negotiation.text (.ofApp []) .brief (.object [("error", .bool true),
              ("errors", .object [("name", .list [.text "name must not be blank"])])])
              .json = .ok r.body))) = some (some 409, some true) := by
    decide +kernel
  rw [hsite] at hcheck
  obtain ⟨db, hdb, hanswers⟩ := Option.map_eq_some_iff.1 hcheck
  obtain ⟨hremoval, hnameless⟩ := by simpa only [Prod.mk.injEq] using hanswers
  obtain ⟨r, hr, hconflict⟩ := Option.map_eq_some_iff.1 hremoval
  obtain ⟨r', hr', hchecked⟩ := Option.map_eq_some_iff.1 hnameless
  obtain ⟨hstatus, htext⟩ := of_decide_eq_true hchecked
  have hreached : site.reached [newAuthorOfBook] = db := Site.respond_of_computed? (by decide) hdb
  rw [hreached, Site.respond_of_answered? (by decide) hr,
    Site.respond_of_answered? (by decide) hr']
  exact ⟨hconflict, hstatus, _, _, htext⟩

/-- What only reads, what is refused and what is answered with errors stores nothing. -/
theorem kept_of_read_or_refused_ann : ∃ site, Library.site (.ofApp []) .brief "" = .ok site ∧
    (site.respond (site.reached [newAuthorOfBook])
      { newAuthor "Ann" with method := "HEAD" }).1 = site.reached [newAuthorOfBook] ∧
    ((site.respond (site.reached [newAuthorOfBook]) authorRemoval).2.status = 409 ∧
      (site.respond (site.reached [newAuthorOfBook]) authorRemoval).1 =
        site.reached [newAuthorOfBook]) ∧
    ((site.respond (site.reached [newAuthorOfBook]) namelessAuthor).2.status = 201 ∧
      (site.respond (site.reached [newAuthorOfBook]) namelessAuthor).1 =
        site.reached [newAuthorOfBook]) := by
  obtain ⟨site, hsite⟩ := exists_site
  obtain ⟨hconflict, hcreated, herrors⟩ := answers_refused hsite
  have hkept := kept_of_read_or_refused canReply_ofApp_nil hsite [newAuthorOfBook]
  exact ⟨site, hsite, hkept _ (Or.inl (by decide +kernel)),
    ⟨hconflict, hkept _ (Or.inr (Or.inl (by omega)))⟩,
    ⟨hcreated, hkept _ (Or.inr (Or.inr herrors))⟩⟩

/-! ## What is not given is not changed -/

/-- The columns that are properties; the others refer to records. -/
def propertyColumns : List String :=
  ["id", "name", "password", "title", "published", "kind", "good"]

/-- All rows are still there, and have in the properties what they had, apart from those that `A`
says by the table, the number of the row and the column. -/
def KeepsProperties (A : String → Int → String → Prop) (before after : Database) : Prop :=
  ∀ t ∈ catalog.tables, ∀ row ∈ before.rowsOf t.name, ∃ k : Int, Row.get row "id" = .int k ∧
    ∃ row' ∈ after.rowsOf t.name, Row.get row' "id" = .int k ∧
      ∀ column ∈ t.names, column ∈ propertyColumns → ¬A t.name k column →
        Row.get row' column = Row.get row column

theorem keepsProperties_of_frames {A : String → Int → String → Prop} {D db : Database}
    (hD : catalog.Sound D) (hdb : catalog.Sound db) (h : catalog.Frames A D db) :
    KeepsProperties A D db := by
  intro t ht row hrow
  obtain ⟨k, hk, hfound⟩ := hD.exists_key hrow
  obtain ⟨row', hrow', hsame⟩ := h t ht k row hfound
  obtain ⟨u, hu, hmem, hk'⟩ := hdb.row?_eq_some.1 hrow'
  refine ⟨k, hk, row', Database.mem_rowsOf.2 ⟨u, hu, hmem⟩, hk', fun column hcolumn hproperty => ?_⟩
  obtain ⟨x, hx, rfl⟩ := List.mem_map.1 hcolumn
  have hcheck : ∀ t ∈ catalog.tables, ∀ x ∈ t.columns, x.name ∈ propertyColumns →
      x.refersTo = none := by
    decide
  exact hsame x hx (hcheck t ht x hx hproperty)

/-- No client may write passwords. -/
theorem password_sealed {reg : Registry} (h : registry = .ok reg) :
    catalog.Sealed reg "authors" "password" "" where
  there := by decide
  default := by
    have hcheck : ∀ m ∈ catalog.models, m.rootTable = "authors" →
        ((m.column? "password").any fun x => x.column.type == .string &&
          x.column.refersTo.isNone && x.column.default.any (Value.text "" == ·)) = true := by
      decide
    exact fun m hm hroot => Catalog.exists_textColumn (hcheck m hm hroot)
  kind := by decide
  closed := by
    have hcheck : (registry.toOption.map fun reg => reg.types.all fun t =>
        (t.model.bind catalog.ofClass?).all fun m => m.rootTable != "authors" ||
          t.writableProperties.all fun p => p.name != "password") = some true := by
      decide
    rw [h] at hcheck
    rintro m - hroot ⟨t, ht, hm, p, hp, hname⟩
    have hmodel := (Option.all_eq_true _ _).1
      (List.all_eq_true.1 (Option.some.inj hcheck) t ht) m hm.model
    simp only [hroot, bne_self_eq_false, Bool.false_or, List.all_eq_true] at hmodel
    simpa [hname] using hmodel p hp

/-- In every state that requests lead to, a request that creates leaves the properties of all
records as they are, and one that changes a record all but those of this record that clients may
write and its payload gives, whatever the payload has nested in it. The passwords of all authors
are empty. -/
theorem kept_but_given (hsettings : settings.CanReply)
    (hsite : Library.site settings detail mount = .ok site) (requests : List Request) :
    (∀ row ∈ (site.reached requests).rowsOf "authors", Row.get row "password" = .text "") ∧
      ∀ request : Request,
        (request.method = "POST" → KeepsProperties (fun _ _ _ => False)
          (site.reached requests) (site.respond (site.reached requests) request).1) ∧
        (request.method = "PUT" → KeepsProperties
          (site.service.MayPut catalog (site.reached requests) request)
          (site.reached requests) (site.respond (site.reached requests) request).1) := by
  have hstands := stands hsettings hsite
  have hsound := sound_reached hsettings hsite requests
  obtain ⟨hcatalog, hreg, -⟩ := site_eq_ok hsite
  have hframes : ∀ request : Request, Service.methodOf request.method ≠ .delete →
      KeepsProperties (site.service.MayPut catalog (site.reached requests) request)
        (site.reached requests) (site.respond (site.reached requests) request).1 := by
    intro request hno
    have hafter := (Site.respond_settles hstands (hcatalog ▸ hsound) request).1
    have hkept := Site.respond_frames hstands (hcatalog ▸ hsound) hno
    rw [hcatalog] at hafter hkept
    exact keepsProperties_of_frames hsound hafter hkept
  refine ⟨fun row hrow => ?_, fun request => ⟨fun hmethod t ht row hrow => ?_, fun hmethod => ?_⟩⟩
  · have hempty : ∀ t ∈ catalog.tables, t.rows = [] := by decide +kernel
    have hsealed := password_sealed hreg
    rw [← hcatalog] at hempty hsealed
    obtain ⟨k, -, hfound⟩ := hsound.exists_key hrow
    exact Site.has_reached hstands hempty hsealed requests k row hfound
  · -- A request for a new record does not put, so nothing may change.
    have hpost : Service.methodOf request.method = .post := by rw [hmethod]; rfl
    obtain ⟨k, hk, row', hrow', hk', hsame⟩ :=
      hframes request (by simp [hpost]) t ht row hrow
    refine ⟨k, hk, row', hrow', hk', fun column hcolumn hproperty _ =>
      hsame column hcolumn hproperty ?_⟩
    rintro ⟨p, y, -, hput, -⟩
    rw [hpost] at hput
    cases hput
  · exact hframes request (by rw [hmethod]; decide)

theorem kept_but_given_ann : ∃ site, Library.site (.ofApp []) .brief "" = .ok site ∧
    KeepsProperties (fun _ _ _ => False) (site.reached [newAuthor "Ann"])
      (site.respond (site.reached [newAuthor "Ann"]) (newAuthor "Bob")).1 := by
  obtain ⟨site, hsite⟩ := exists_site
  exact ⟨site, hsite,
    ((kept_but_given canReply_ofApp_nil hsite [newAuthor "Ann"]).2 (newAuthor "Bob")).1 rfl⟩

/-! ## What is stored can be read -/

/-- Authors have names, books have authors, parents of categories are categories, and all
animals are dogs. -/
structure IsInOrder (db : Database) : Prop where
  tables : db.map Table.name = ["authors", "books", "categories", "animals"]
  author : ∀ r ∈ db.rowsOf "authors", Row.get r "name" ≠ .null
  book : ∀ r ∈ db.rowsOf "books", ∃ a ∈ db.rowsOf "authors",
    Row.get a "id" = Row.get r "author_id"
  category : ∀ r ∈ db.rowsOf "categories", Row.get r "parent_id" = .null ∨
    ∃ a ∈ db.rowsOf "categories", Row.get a "id" = Row.get r "parent_id"
  animal : ∀ r ∈ db.rowsOf "animals", Row.get r "kind" = .text "dog"

/-- Where the records of a type are kept and found. -/
structure Shelf where
  type : String
  table : String
  /-- The address of all of them. -/
  path : String

/-- The types that have records. -/
def shelves : List Shelf :=
  [⟨"Author", "authors", "/authors"⟩, ⟨"Book", "books", "/books"⟩,
    ⟨"Category", "categories", "/categories"⟩, ⟨"Dog", "animals", "/dogs"⟩]

/-- Records that are built have a table of their own. -/
theorem fills_of_isBuilt {m : Model} (hm : m ∈ catalog.models) (hbuilt : m.isBuilt = true) :
    catalog.Fills m := by
  have hcheck : ∀ m ∈ catalog.models, m.isBuilt = true → m.extends_ m.name = true ∧
      ∀ n ∈ catalog.models, n.rootTable = m.rootTable → n.isBuilt = true → n.name = m.name := by
    decide
  obtain ⟨hself, honly⟩ := hcheck m hm hbuilt
  exact ⟨hm, honly, hself⟩

/-- The records of each of these types fill their table. -/
theorem exists_fills {x : Shelf} (hx : x ∈ shelves) :
    ∃ m, catalog.model? x.type = some m ∧ m.rootTable = x.table ∧ catalog.Fills m := by
  have hcheck : ∀ x ∈ shelves, ((catalog.model? x.type).any fun m =>
      m.rootTable == x.table && m.isBuilt) = true := by
    decide
  obtain ⟨m, hm, h⟩ := (Option.any_eq_true _ _).1 (hcheck x hx)
  simp only [Bool.and_eq_true, beq_iff_eq] at h
  exact ⟨m, hm, h.1, fills_of_isBuilt (Catalog.model?_mem hm).1 h.2⟩

theorem exists_typeOf {reg : Registry} (h : registry = .ok reg) {x : Shelf} (hx : x ∈ shelves)
    {m : Model} (hm : catalog.model? x.type = some m) :
    ∃ t, reg.typeOf? m.recordClass = some t ∧ t.name = x.type ∧ "/" ++ t.pluralName = x.path := by
  have hcheck : (registry.toOption.map fun reg => shelves.all fun x =>
      (catalog.model? x.type).all fun m => (reg.typeOf? m.recordClass).any fun t =>
        t.name == x.type && "/" ++ t.pluralName == x.path) = some true := by
    decide
  rw [h] at hcheck
  have hshelf := List.all_eq_true.1 (Option.some.inj hcheck) x hx
  obtain ⟨t, ht, hnames⟩ := (Option.any_eq_true _ _).1 ((Option.all_eq_true _ _).1 hshelf m hm)
  simp only [Bool.and_eq_true, beq_iff_eq] at hnames
  exact ⟨t, ht, hnames⟩

theorem isInOrder_of_sound {db : Database} (h : catalog.Sound db) : IsInOrder db where
  tables := by
    have hnames : db.map Table.name = (db.map Table.emptied).map Table.name := by
      rw [List.map_map]
      rfl
    rw [hnames, h.tables]
    decide
  author r hr := h.ne_null_of_mem_rowsOf hr (by decide)
  book r hr := by
    refine (h.exists_referred hr (by decide)).resolve_left ?_
    exact h.ne_null_of_mem_rowsOf hr (by decide)
  category r hr := h.exists_referred hr (by decide)
  animal r hr := by
    obtain ⟨m, hm, hroot, hfills⟩ :=
      exists_fills (x := ⟨"Dog", "animals", "/dogs"⟩) (by simp [shelves])
    obtain ⟨t, -, -, hname, hrow⟩ := h.exists_table hr
    have hdog : ∀ m, catalog.model? "Dog" = some m →
        m.discriminator = some "kind" ∧ m.identity = some "dog" := by
      have hcheck : ((catalog.model? "Dog").all fun m =>
          m.discriminator == some "kind" && m.identity == some "dog") = true := by
        decide
      intro m hm
      simpa using (Option.all_eq_true _ _).1 hcheck m hm
    obtain ⟨hk, hi⟩ := hdog m hm
    exact hfills.identity_eq plain hrow (hroot.trans hname.symm) hk hi

/-- Nothing but the routes to the entities reads their addresses, unless the paths of the root
and of the description are moved there. -/
theorem separates (hsite : Library.site settings detail "" = .ok site)
    (hroot : settings.get "ROOT_PATH" = .text "/root")
    (hschema : settings.get "SCHEMA_PATH" = .text "/schema") : site.service.Separates := by
  obtain ⟨-, hreg, -, -, rfl, -, hmount⟩ := site_eq_ok hsite
  have hcheck : (registry.toOption.map fun reg => decide (
      (∀ t ∈ reg.types, '/' ∉ t.pluralName.toList) ∧
      (reg.types.map ResourceType.pluralName).Nodup ∧
      ∀ u ∈ ["/root", "/schema"], ∀ t ∈ reg.types,
        ¬ '/' :: t.pluralName.toList ++ ['/'] <+: Service.mergeSlashes u.toList)) = some true := by
    decide
  rw [hreg] at hcheck
  obtain ⟨hslash, hdistinct, hoption⟩ := of_decide_eq_true (Option.some.inj hcheck)
  refine ⟨hmount, hslash, hdistinct, fun o ho u hu => hoption u ?_⟩
  have hpath : u = "/root" ∨ u = "/schema" := by
    simp only [List.mem_cons, List.not_mem_nil, or_false] at ho hu
    rcases ho with rfl | rfl
    · left
      rw [Service.rootOption, hroot] at hu
      exact hu.elim id id
    · right
      rw [Service.schemaOption, hschema] at hu
      exact hu.elim id id
  simpa using hpath

/-- In every state that requests lead to the database is in order, and whoever asks for the
address of a stored author, book, category or dog gets its full form and no errors. -/
theorem inOrder_and_shown (hsettings : settings.CanReply)
    (hroot : settings.get "ROOT_PATH" = .text "/root")
    (hschema : settings.get "SCHEMA_PATH" = .text "/schema")
    (hsite : Library.site settings detail "" = .ok site) (requests : List Request) :
    IsInOrder (site.reached requests) ∧
      ∀ x ∈ shelves, ∃ t ∈ site.service.registry.types, t.name = x.type ∧
        ∀ row ∈ (site.reached requests).rowsOf x.table, ∃ k : Int, Row.get row "id" = .int k ∧
          ∀ ext, Format.IsSuffix ext → ∀ request : Request, request.method = "GET" →
            request.path = (x.path ++ "/" ++ toString k ++ Naming.formatSuffix ext).toList →
              site.service.Shows t (site.service.root ++ String.ofList request.path) row
                  (site.respond (site.reached requests) request).2 ∧
                ¬Negotiation.IsErrorText settings detail
                  (site.respond (site.reached requests) request).2.body := by
  have hsound := sound_reached hsettings hsite requests
  refine ⟨isInOrder_of_sound hsound, fun x hx => ?_⟩
  obtain ⟨hcatalog, hreg, -⟩ := site_eq_ok hsite
  obtain ⟨m, hm, htable, hfills⟩ := exists_fills hx
  obtain ⟨t, ht, hname, hplural⟩ := exists_typeOf hreg hx hm
  refine ⟨t, ((exposed hreg).presents_of_typeOf hfills.mem ht).1, hname, fun row hrow => ?_⟩
  obtain ⟨k, hk, hrow⟩ := hsound.exists_key hrow
  refine ⟨k, hk, fun ext hext request hmethod hpath => ?_⟩
  have haddress : request.path = t.address (toString k).toList ext := by
    rw [hpath, ← hplural]
    simp [ResourceType.address]
  rw [← htable] at hrow
  rw [← hcatalog] at hsound hfills
  have hshown := Site.respond_stored (stands hsettings hsite) (separates hsite hroot hschema)
    hsound hfills ht hrow hext hmethod haddress
  refine ⟨hshown, ?_⟩
  obtain ⟨y, f, hfull, htext⟩ := hshown.full
  obtain ⟨v, fields, hv⟩ := hfull.toValue_eq
  obtain ⟨-, -, -, -, rfl, rfl, -⟩ := site_eq_ok hsite
  rw [hv] at htext
  exact Negotiation.not_isErrorText htext

theorem inOrder_and_shown_ann : ∃ site, Library.site (.ofApp []) .brief "" = .ok site ∧
    IsInOrder (site.reached [newAuthor "Ann"]) ∧
    ∀ row ∈ (site.reached [newAuthor "Ann"]).rowsOf "authors", ∃ k : Int,
      Row.get row "id" = .int k ∧ (site.respond (site.reached [newAuthor "Ann"])
        { method := "GET", path := ("/authors/" ++ toString k).toList, queryNames := []
          body := "" }).2.status = 200 := by
  obtain ⟨site, hsite⟩ := exists_site
  obtain ⟨hinOrder, hshown⟩ :=
    inOrder_and_shown canReply_ofApp_nil rfl rfl hsite [newAuthor "Ann"]
  obtain ⟨t, -, -, hrows⟩ := hshown ⟨"Author", "authors", "/authors"⟩ (by simp [shelves])
  refine ⟨site, hsite, hinOrder, fun row hrow => ?_⟩
  obtain ⟨k, hk, hget⟩ := hrows row hrow
  refine ⟨k, hk, (hget none (by simp [Format.IsSuffix]) _ rfl ?_).1.status⟩
  simp [Naming.formatSuffix]

end Library

end Hypermedia
