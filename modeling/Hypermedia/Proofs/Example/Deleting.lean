import Hypermedia.Proofs.Api.Deleting
import Hypermedia.Proofs.Example.Echoing
import Hypermedia.Proofs.Example.Guarding

/-!
# Removing records of the small library

A book must have an author, so authors with books stay. Every other record that is removed is
missed by nobody but its child categories, which have no parent any more; all other rows stay as
they are (`Library.removed_or_bound`).
-/

namespace Hypermedia

namespace Library

variable {settings : Settings} {detail : Detail} {site : Site}

/-- What is left of a row when a record is removed: a category whose parent this was has none. -/
def orphaned (root : String) (k : Int) (name : String) (row : Row) : Row :=
  row.map fun x => (x.1, if root = "categories" ∧ name = "categories" ∧ x.1 = "parent_id" ∧
    x.2 == .int k then .null else x.2)

theorem unlinked_eq_orphaned (root : String) (k : Int) (name : String) (row : Row) :
    catalog.unlinked root k name row = orphaned root k name row := by
  have hreferences : catalog.optionalReferences =
      [("categories", "parent_id", "categories", "id")] := by decide
  refine List.map_congr_left fun x _ => ?_
  simp only [hreferences, List.mem_singleton, Prod.mk.injEq, and_true]
  grind

/-- A book binds its author. -/
theorem binds_of_book {db : Database} (hdb : catalog.Sound db) {k : Int} {book : Row}
    (hbook : book ∈ db.rowsOf "books") (hauthor : Row.get book "author_id" = .int k) :
    catalog.Binds db "authors" k := by
  obtain ⟨t, ht, hname, x, hx, hxname, hfull, hto⟩ : ∃ t ∈ catalog.tables, t.name = "books" ∧
      ∃ x ∈ t.columns, x.name = "author_id" ∧ x.isNullable = false ∧
        x.refersTo = some ("authors", "id") := by decide
  obtain ⟨j, -, hrow⟩ := hdb.exists_key hbook
  exact ⟨t, ht, x, hx, hfull, hto, j, book, hname ▸ hrow, by simp [hname], hxname ▸ hauthor⟩

/-- No rule is about the removal of authors, and they are not linked to each other. -/
theorem passes_author {reg : Registry} (h : registry = .ok reg) {m : Model}
    (hm : m ∈ catalog.models) (htable : m.rootTable = "authors") : catalog.isFlat m = true ∧
      ∀ t, reg.typeOf? m.recordClass = some t → ∀ get, t.Passes rules .destroy get := by
  have hcheck : (registry.toOption.map fun reg => catalog.models.all fun m =>
      m.rootTable != "authors" || catalog.isFlat m && (reg.typeOf? m.recordClass).all fun t =>
        t.validators.all fun v => !v.applies .destroy) = some true := by
    decide
  rw [h] at hcheck
  have hmodel := List.all_eq_true.1 (Option.some.inj hcheck) m hm
  simp only [htable, bne_self_eq_false, Bool.false_or, Bool.and_eq_true, Option.all_eq_true,
    List.all_eq_true, Bool.not_eq_true'] at hmodel
  refine ⟨hmodel.1, fun t ht get v hv => ?_⟩
  obtain ⟨hv, happlies⟩ := List.mem_filter.1 hv
  rw [hmodel.2 t ht v hv] at happlies
  cases happlies

/-- In every state that requests lead to, a request to delete that is answered with nothing removes
just the record that its path leads to: every other row stays as it is, but for child categories,
and whoever reads the address of the record is told that there is none. A request to delete an
author of a book is answered with a conflict. -/
theorem removed_or_bound (hsettings : settings.CanReply)
    (hroot : settings.get "ROOT_PATH" = .text "/root")
    (hschema : settings.get "SCHEMA_PATH" = .text "/schema")
    (hurl : settings.get "URL_ROOT" = .text "")
    (hsite : Library.site settings detail "" = .ok site) (requests : List Request)
    {request : Request} (hmethod : request.method = "DELETE") {db : Database} {answer : Response}
    (hrespond : site.respond (site.reached requests) request = (db, answer)) :
    (answer.status = 204 → ∃ scope y t m k row top, site.service.Reaches request scope y ∧
      site.service.LeadsTo catalog (site.reached requests) scope y.params t m k row ∧
      site.service.routes.IsTop t top ∧
      (site.reached requests).row? m.rootTable k = some row ∧
      (∀ name j, db.row? name j = if name = m.rootTable ∧ j = k then none else
        ((site.reached requests).row? name j).map (orphaned m.rootTable k name)) ∧
      ∀ ext, Format.IsSuffix ext →
        (site.respond db (.ofAddress "GET" (top.address [toString k] ext) "")).2.status = 404) ∧
    ∀ scope y t m k row, site.service.Reaches request scope y → Format.IsSuffix y.suffix →
      site.service.LeadsTo catalog (site.reached requests) scope y.params t m k row →
      m.rootTable = "authors" → (∃ book ∈ (site.reached requests).rowsOf "books",
        Row.get book "author_id" = .int k) → answer.status = 409 := by
  have hstands := stands hsettings hsite
  have hechoes := echoes hsite hroot hschema hurl
  have hsound := sound_reached hsettings hsite requests
  obtain ⟨hcatalog, hreg, hrules, -⟩ := site_eq_ok hsite
  rw [← hcatalog] at hsound
  refine ⟨fun hstatus => ?_, fun scope y t m k row hreaches hsuffix hleads htable hbook => ?_⟩
  · obtain ⟨scope, y, t, m, k, row, hreaches, hleads, hloses⟩ :=
      Site.removes_of_respond hstands hsound hmethod (by rwa [hrespond])
    rw [hrespond] at hloses
    obtain ⟨_, _, -, hknown, ht⟩ := id hleads
    obtain ⟨htmem, -⟩ := hstands.serves.exposed.presents_of_typeOf hknown.mem ht
    obtain ⟨top, htop⟩ := hstands.exposes.exists_top htmem
    obtain ⟨hlow, hhigh⟩ := hsound.number_range hknown.row
    refine ⟨scope, y, t, m, k, row, top, hreaches, hcatalog ▸ hleads, htop, hknown.row,
      fun name j => ?_, fun ext hext => ?_⟩
    · rw [hloses.row?_eq hstands.serves.plain hsound, hcatalog]
      simp only [funext (unlinked_eq_orphaned m.rootTable k name)]
    · exact Site.status_missing hstands hloses.sound hechoes hknown.mem ht htop (by omega) hhigh
        hloses.gone hext
  · obtain ⟨book, hbook, hauthor⟩ := hbook
    have hbinds := binds_of_book (hcatalog ▸ hsound) hbook hauthor
    obtain ⟨_, _, -, hknown, ht⟩ := id hleads
    obtain ⟨hflat, hpass⟩ := passes_author hreg hknown.mem htable
    rw [← hcatalog, ← htable] at hbinds
    rw [← hcatalog] at hleads hflat
    have hconflict := Site.status_bound hstands hsound hmethod hreaches hsuffix hleads
      (hrules ▸ hpass t ht _) hflat hbinds
    rwa [hrespond] at hconflict

/-- A request to delete. -/
def deletion (address : String) : Request :=
  { method := "DELETE", path := address.toList, queryNames := [], body := "" }

/-- A request for a new category with a child. -/
def newCategories : Request :=
  { method := "POST", path := "/categories".toList, queryNames := []
    body := (Json.object [("name", .text "Art"),
      ("children", .array [.object [("name", .text "Film")]])]).compact }

/-- The first category can be removed. -/
theorem respond_deletion (hsite : Library.site (.ofApp []) .brief "" = .ok site) :
    (site.respond (site.reached [newCategories]) (deletion "/categories/1")).2.status = 204 ∧
      ((site.reached [newCategories]).row? "categories" 1).isSome = true ∧
      (site.respond (site.reached [newCategories]) (deletion "/categories/1")).1.row?
        "categories" 1 = none := by
  have hcheck : ((Library.site (.ofApp []) .brief "").toOption.bind fun site =>
      (site.computed? site.emptyDatabase newCategories).map fun db =>
        ((db.row? "categories" 1).isSome,
          ((site.computed? db (deletion "/categories/1")).map fun db =>
            (db.row? "categories" 1).isNone),
          (site.answered? db (deletion "/categories/1")).map Response.status)) =
        some (true, some true, some 204) := by
    decide +kernel
  rw [hsite] at hcheck
  obtain ⟨db, hdb, hfacts⟩ := Option.map_eq_some_iff.1 hcheck
  simp only [Prod.mk.injEq] at hfacts
  obtain ⟨hsome, hgone, hanswer⟩ := hfacts
  obtain ⟨db', hdb', hnone⟩ := Option.map_eq_some_iff.1 hgone
  obtain ⟨r, hr, hstatus⟩ := Option.map_eq_some_iff.1 hanswer
  have hreached : site.reached [newCategories] = db :=
    Site.respond_of_computed? (by decide) hdb
  rw [hreached, Site.respond_of_answered? (by decide) hr,
    Site.respond_of_computed? (by decide) hdb']
  exact ⟨hstatus, hsome, by simpa using hnone⟩

/-- The author with a permanent book is stored under the first number. -/
theorem exists_authorOfBook (hsite : Library.site (.ofApp []) .brief "" = .ok site) :
    (∃ row, (site.reached [newAuthorOfBook]).row? "authors" 1 = some row) ∧
      ∃ book ∈ (site.reached [newAuthorOfBook]).rowsOf "books",
        Row.get book "author_id" = .int 1 := by
  have hcheck : ((Library.site (.ofApp []) .brief "").toOption.bind fun site =>
      (site.computed? site.emptyDatabase newAuthorOfBook).map fun db =>
        (db.row? "authors" 1).isSome && (db.rowsOf "books").any fun row =>
          ColumnType.integer.keeps (Row.get row "author_id") &&
            Row.get row "author_id" == .int 1) = some true := by
    decide +kernel
  rw [hsite] at hcheck
  obtain ⟨db, hdb, hfacts⟩ := Option.map_eq_some_iff.1 hcheck
  rw [Bool.and_eq_true, List.any_eq_true] at hfacts
  obtain ⟨hsome, book, hbook, hauthor⟩ := hfacts
  have hreached : site.reached [newAuthorOfBook] = db :=
    Site.respond_of_computed? (by decide) hdb
  rw [hreached]
  exact ⟨Option.isSome_iff_exists.1 hsome, book, hbook, ColumnType.eq_int_of_keeps hauthor⟩

/-- A request to delete the first author reaches it. -/
theorem exists_reaches_author (hsite : Library.site (.ofApp []) .brief "" = .ok site) {row : Row}
    (hrow : (site.reached [newAuthorOfBook]).row? "authors" 1 = some row) :
    ∃ scope y t m, site.service.Reaches (deletion "/authors/1") scope y ∧ y.suffix = none ∧
      site.service.LeadsTo catalog (site.reached [newAuthorOfBook]) scope y.params t m 1 row ∧
      m.rootTable = "authors" := by
  obtain ⟨hcatalog, hreg, -⟩ := site_eq_ok hsite
  have hsound := sound_reached canReply_ofApp_nil hsite [newAuthorOfBook]
  obtain ⟨m, hm, htable, hfills⟩ :=
    exists_fills (x := ⟨"Author", "authors", "/authors"⟩) (by simp [shelves])
  obtain ⟨t, ht, hname, hplural⟩ := exists_typeOf hreg (by simp [shelves]) hm
  have hopen : t.isAbstract = false := by
    have hcheck : (registry.toOption.map fun reg => reg.types.all fun t =>
        t.name != "Author" || !t.isAbstract) = some true := by
      decide
    rw [hreg] at hcheck
    obtain ⟨htmem, -⟩ := (exposed hreg).presents_of_typeOf hfills.mem ht
    simpa [hname] using List.all_eq_true.1 (Option.some.inj hcheck) t htmem
  have hpath : (deletion "/authors/1").path = t.address (toString (1 : Int)).toList none := by
    have hspelled : "/authors/1" = "/" ++ t.pluralName ++ "/" ++ toString (1 : Int) := by
      rw [hplural]
      decide
    rw [deletion, hspelled]
    simp [ResourceType.address, Naming.formatSuffix]
  have htable : m.rootTable = "authors" := htable
  rw [← htable] at hrow
  rw [← hcatalog] at hsound hfills ⊢
  obtain ⟨scope, y, hreaches, hsuffix, hleads⟩ := Site.exists_reaches
    (stands canReply_ofApp_nil hsite) hsound (separates hsite rfl rfl) hfills ht hopen hrow
    (by simp [Format.IsSuffix]) rfl hpath
  exact ⟨scope, y, t, m, hreaches, hsuffix, hleads, htable⟩

theorem removed_or_bound_first : ∃ site, Library.site (.ofApp []) .brief "" = .ok site ∧
    (∃ db answer, site.respond (site.reached [newCategories]) (deletion "/categories/1") =
        (db, answer) ∧ answer.status = 204 ∧
      db.row? "categories" 2 = ((site.reached [newCategories]).row? "categories" 2).map
        (orphaned "categories" 1 "categories")) ∧
    (site.respond (site.reached [newAuthorOfBook]) (deletion "/authors/1")).2.status = 409 := by
  obtain ⟨site, hsite⟩ := exists_site
  refine ⟨site, hsite, ?_, ?_⟩
  · obtain ⟨hstatus, hsome, hgone⟩ := respond_deletion hsite
    rcases hrespond : site.respond (site.reached [newCategories]) (deletion "/categories/1") with
      ⟨db, answer⟩
    rw [hrespond] at hstatus hgone
    obtain ⟨-, -, -, m, k, -, -, -, -, -, -, hrows, -⟩ := (removed_or_bound canReply_ofApp_nil rfl
      rfl rfl hsite [newCategories] rfl hrespond).1 hstatus
    -- Only the row that is gone can be the one that was removed.
    have hremoved : "categories" = m.rootTable ∧ 1 = k := by
      by_contra hno
      rw [hrows, if_neg hno, Option.map_eq_none_iff] at hgone
      rw [hgone] at hsome
      cases hsome
    obtain ⟨hname, rfl⟩ := hremoved
    exact ⟨db, answer, rfl, hstatus, by rw [hrows, ← hname, if_neg (by decide)]⟩
  · obtain ⟨⟨row, hrow⟩, hbook⟩ := exists_authorOfBook hsite
    obtain ⟨scope, y, t, m, hreaches, hsuffix, hleads, htable⟩ := exists_reaches_author hsite hrow
    have hmethod : (deletion "/authors/1").method = "DELETE" := rfl
    exact (removed_or_bound canReply_ofApp_nil rfl rfl rfl hsite [newAuthorOfBook] hmethod rfl).2
      scope y t m 1 row hreaches (hsuffix ▸ by simp [Format.IsSuffix]) hleads htable hbook

end Library

end Hypermedia
