import Hypermedia.Proofs.Api.Owning
import Hypermedia.Proofs.Example.Library

/-!
# Owners in the small library

Books are made for their authors and categories for their parents at the addresses of these.
Whatever a payload says about the author or the parent, with references or with records in it, the
one of the address has the new record (`Library.owned_by_address`).
-/

namespace Hypermedia

namespace Library

variable {settings : Settings} {detail : Detail} {site : Site}

/-- Records that own others: where both are kept and found, what the way to the owned ones and the
way back are called, and the column with the number of the owner. -/
structure Family where
  owner : Shelf
  member : Shelf
  down : String
  up : String
  column : String

/-- Authors own books, and categories own categories. -/
def families : List Family :=
  [⟨⟨"Author", "authors", "/authors"⟩, ⟨"Book", "books", "/books"⟩, "books", "author", "author_id"⟩,
    ⟨⟨"Category", "categories", "/categories"⟩, ⟨"Category", "categories", "/categories"⟩,
      "children", "parent", "parent_id"⟩]

theorem namesReadable {reg : Registry} (h : registry = .ok reg) : reg.NamesReadable := by
  have hcheck : (registry.toOption.map fun reg => decide (
      (∀ t ∈ reg.types, IsId t.pluralName.toList) ∧
      ∀ t ∈ reg.types, ∀ b ∈ Tree.branches t, IsId b.name.toList)) = some true := by
    decide +kernel
  rw [h] at hcheck
  obtain ⟨hplural, hbranch⟩ := of_decide_eq_true (Option.some.inj hcheck)
  exact ⟨hplural, hbranch⟩

/-- The links of a family mirror each other. -/
theorem exists_mirrors {x : Family} (hx : x ∈ families) {n m : Model}
    (hn : catalog.model? x.owner.type = some n) (hm : catalog.model? x.member.type = some m)
    {rel : Relationship} (hname : rel.name = x.down) (hinverse : rel.inverse = some x.up) :
    ∃ back, back.name = x.up ∧ catalog.Mirrors n m rel back x.column := by
  have hcheck : ∀ x ∈ families, ∀ n ∈ catalog.model? x.owner.type,
      ∀ m ∈ catalog.model? x.member.type, ∃ back ∈ m.links, ∃ l ∈ n.links,
        back.name = x.up ∧ m.link? x.up = some back ∧ back.kind = .reference x.column ∧
        (∀ y ∈ m.links, y.kind = .reference x.column → y = back) ∧
        back.target = x.owner.type ∧ n.link? x.down = some l ∧ l.kind = .members x.column ∧
        l.target = x.member.type ∧
        ∀ y ∈ Act.inverseOf catalog back, y.isList = true ∧ back.name ≠ y.name := by
    decide
  obtain ⟨back, -, l, -, hback, hlink, hkind, honly, htarget, hl, hmembers, hmember, hforth⟩ :=
    hcheck x hx n hn m hm
  exact ⟨back, hback, ⟨hback ▸ hinverse, hback ▸ hlink, hkind, honly, htarget ▸ hn,
    ⟨l, hname ▸ hl, hmembers, hmember ▸ hm⟩, hforth⟩⟩

/-- The types of a family have the relationships down and up. -/
theorem exists_ways {reg : Registry} (h : registry = .ok reg)
    (hdistinct : (reg.types.map ResourceType.pluralName).Nodup) {x : Family} (hx : x ∈ families)
    {n m : Model} (hn : catalog.model? x.owner.type = some n)
    (hm : catalog.model? x.member.type = some m) {t t' : ResourceType}
    (ht : reg.typeOf? n.recordClass = some t) (ht' : reg.typeOf? m.recordClass = some t')
    (htmem' : t' ∈ reg.types) :
    (∃ rel ∈ t.readableRelationships, rel.name = x.down ∧ rel.isMany = true ∧
      rel.inverse = some x.up ∧ reg.resolve rel.target = .ok t') ∧
    ∃ up ∈ t'.readableRelationships, up.name = x.up ∧ up.isMany = false := by
  have hcheck : (registry.toOption.map fun reg => families.all fun x =>
      (catalog.model? x.owner.type).all fun n => (catalog.model? x.member.type).all fun m =>
        (reg.typeOf? n.recordClass).all fun t => (reg.typeOf? m.recordClass).all fun t' => decide (
          (∃ rel ∈ t.readableRelationships, rel.name = x.down ∧ rel.isMany = true ∧
            rel.inverse = some x.up ∧
            (reg.resolve rel.target).toOption.map ResourceType.pluralName = some t'.pluralName) ∧
          ∃ up ∈ t'.readableRelationships, up.name = x.up ∧ up.isMany = false)) = some true := by
    decide
  rw [h] at hcheck
  have hfamily := List.all_eq_true.1 (Option.some.inj hcheck) x hx
  simp only [hn, hm, ht, ht', Option.all_some, decide_eq_true_eq] at hfamily
  obtain ⟨⟨rel, hrel, hname, hmany, hinverse, htarget⟩, hup⟩ := hfamily
  refine ⟨⟨rel, hrel, hname, hmany, hinverse, ?_⟩, hup⟩
  cases hresolve : reg.resolve rel.target with
  | error f =>
    rw [hresolve] at htarget
    cases htarget
  | ok u =>
    rw [hresolve] at htarget
    rw [List.inj_on_of_nodup_map hdistinct (Registry.resolve_mem hresolve) htmem'
      (Option.some.inj htarget)]

/-- In a site of the library the owners of a family own the members. -/
theorem exists_owns (hsite : Library.site settings detail "" = .ok site)
    (hroot : settings.get "ROOT_PATH" = .text "/root")
    (hschema : settings.get "SCHEMA_PATH" = .text "/schema") {x : Family} (hx : x ∈ families) :
    ∃ t t' n m rel up back, site.Owns t t' n m rel up back x.column ∧
      n.rootTable = x.owner.table ∧ m.rootTable = x.member.table ∧ t.name = x.owner.type ∧
      "/" ++ t.pluralName = x.owner.path ∧ "/" ++ t'.pluralName = x.member.path ∧
      rel.name = x.down ∧ up.name = x.up := by
  have hshelves : ∀ x ∈ families, x.owner ∈ shelves ∧ x.member ∈ shelves := by
    simp [families, shelves]
  obtain ⟨howner, hmember⟩ := hshelves x hx
  have hdistinct := (separates hsite hroot hschema).distinct
  obtain ⟨hcatalog, hreg, -⟩ := site_eq_ok hsite
  obtain ⟨n, hn, hntable, hnfills⟩ := exists_fills howner
  obtain ⟨m, hm, hmtable, hmfills⟩ := exists_fills hmember
  obtain ⟨t, ht, htname, htplural⟩ := exists_typeOf hreg howner hn
  obtain ⟨t', ht', -, htplural'⟩ := exists_typeOf hreg hmember hm
  obtain ⟨htmem, -⟩ := (exposed hreg).presents_of_typeOf hnfills.mem ht
  obtain ⟨htmem', -⟩ := (exposed hreg).presents_of_typeOf hmfills.mem ht'
  obtain ⟨⟨rel, hrel, hrelname, hmany, hinverse, htarget⟩, up, hup, hupname, hone⟩ :=
    exists_ways hreg hdistinct hx hn hm ht ht' htmem'
  obtain ⟨back, hback, hmirrors⟩ := exists_mirrors hx hn hm hrelname hinverse
  rw [← hcatalog] at hnfills hmfills hmirrors
  exact ⟨t, t', n, m, rel, up, back,
    { mirrors := hmirrors, owners := hnfills, members := hmfills, ownerType := ht
      memberType := ht', target := htarget, readable := hrel, many := hmany
      name := hupname.trans hback.symm, readableUp := hup, one := hone
      ownerNames := fieldNames_nodup hreg t htmem, memberNames := fieldNames_nodup hreg t' htmem' },
    hntable, hmtable, htname, htplural, htplural', hrelname, hupname⟩

/-- The path of what a relationship of the record of a number on a shelf leads to. -/
def Shelf.branchPath (x : Shelf) (k : Int) (name : String) (ext : Option String) : String :=
  x.path ++ "/" ++ toString k ++ "/" ++ name ++ Naming.formatSuffix ext

/-- The path of the record of a number on a shelf. -/
def Shelf.entityPath (x : Shelf) (k : Int) (ext : Option String) : String :=
  x.path ++ "/" ++ toString k ++ Naming.formatSuffix ext

theorem toList_branchPath {x : Shelf} {t : ResourceType} (h : "/" ++ t.pluralName = x.path)
    (k : Int) (name : String) (ext : Option String) :
    (x.branchPath k name ext).toList = t.branchAddress (toString k).toList name ext := by
  rw [Shelf.branchPath, ← h]
  simp [ResourceType.branchAddress]

theorem entityUri_eq_entityPath {x : Shelf} {t : ResourceType} (h : "/" ++ t.pluralName = x.path)
    (s : Service) (k : Int) (ext : Option String) :
    t.entityUri (s.writer ext) k = s.root ++ x.entityPath k ext := by
  rw [ResourceType.entityUri_eq, Shelf.entityPath, ← h, ← String.toList_inj]
  simp [ResourceType.address]

/-- In every state that requests lead to, a request for a new record at the address of the members
of an owner, if it is answered with a new record and with no errors, makes a record that has this
owner in its row, whatever else its payload says. The record is at the address that is told. It is
listed at the address of the members of this owner and of no other, and its owner is shown at the
way back. -/
theorem owned_by_address (hsettings : settings.CanReply)
    (hroot : settings.get "ROOT_PATH" = .text "/root")
    (hschema : settings.get "SCHEMA_PATH" = .text "/schema")
    (hsite : Library.site settings detail "" = .ok site) (requests : List Request)
    {x : Family} (hx : x ∈ families) {i : Int} {owner : Row}
    (howner : (site.reached requests).row? x.owner.table i = some owner) {ext : Option String}
    (hext : Format.IsSuffix ext) {request : Request} (hmethod : request.method = "POST")
    (hpath : request.path = (x.owner.branchPath i x.down ext).toList) {db : Database}
    {answer : Response} (hrespond : site.respond (site.reached requests) request = (db, answer))
    (hstatus : answer.status = 201)
    (herror : ¬Negotiation.IsErrorText settings detail answer.body) :
    ∃ k member, db.row? x.member.table k = some member ∧ Row.get member x.column = .int i ∧
      answer.headers.filter (fun h => h.1 == "Location") =
        [("Location", Text.uriText (site.service.root ++ x.member.entityPath k ext))] ∧
      (∀ j other, db.row? x.owner.table j = some other → ∀ ext, Format.IsSuffix ext →
        ∀ get : Request, get.method = "GET" →
          get.path = (x.owner.branchPath j x.down ext).toList →
            ∃ members, site.service.Lists (site.service.root ++ x.owner.branchPath j x.down ext)
                members (site.respond db get).2 ∧
              (site.service.root ++ x.member.entityPath k ext ∈ members ↔ j = i)) ∧
      ∃ t ∈ site.service.registry.types, t.name = x.owner.type ∧
        ∃ owner, db.row? x.owner.table i = some owner ∧ ∀ ext, Format.IsSuffix ext →
          ∀ get : Request, get.method = "GET" →
            get.path = (x.member.branchPath k x.up ext).toList →
              site.service.Shows t (site.service.root ++ x.owner.entityPath i ext) owner
                (site.respond db get).2 := by
  have hstands := stands hsettings hsite
  have hseparates := separates hsite hroot hschema
  have hsound := sound_reached hsettings hsite requests
  obtain ⟨t, t', n, m, rel, up, back, hown, hntable, hmtable, hname, hplural, hplural', hdown,
    hup⟩ := exists_owns hsite hroot hschema hx
  obtain ⟨hcatalog, hreg, -, -, rfl, rfl, -⟩ := site_eq_ok hsite
  rw [← hcatalog] at hsound
  rw [← hntable] at howner
  rw [toList_branchPath hplural, ← hdown] at hpath
  obtain ⟨k, member, hmember, hcell, hheader, hlists, owner', howner', hshows⟩ :=
    Site.owned_of_respond hown hstands hseparates (namesReadable hreg) hsound howner hext hmethod
      hpath (by rwa [hrespond]) (by rwa [hrespond]) (congrArg Prod.fst hrespond)
  obtain ⟨htmem, -⟩ := (exposed hreg).presents_of_typeOf (hcatalog ▸ hown.owners).mem hown.ownerType
  simp only [entityUri_eq_entityPath hplural, entityUri_eq_entityPath hplural', hntable, hmtable]
    at hmember hheader hlists howner' hshows
  rw [hrespond] at hheader
  refine ⟨k, member, hmember, hcell, hheader, fun j other hother ext hext get hget hpath => ?_, t,
    htmem, hname, owner', howner', fun ext hext get hget hpath => ?_⟩
  · have hlisted := hlists j other hother ext hext get hget
      (by rw [hpath, toList_branchPath hplural, hdown])
    rwa [hpath, String.ofList_toList] at hlisted
  · exact hshows ext hext get hget (by rw [hpath, toList_branchPath hplural', hup])

/-- A request for a new book of the first author, which says that the author is a new one. -/
def newBookOfBob : Request :=
  { method := "POST", path := "/authors/1/books".toList, queryNames := []
    body := (Json.object [("title", .text "Sea"),
      ("author", .object [("name", .text "Bob")])]).compact }

/-- The new book is answered with its full form. -/
theorem respond_newBookOfBob (hsite : Library.site (.ofApp []) .brief "" = .ok site) :
    ((site.reached [newAuthor "Ann"]).row? "authors" 1).isSome = true ∧
      (site.respond (site.reached [newAuthor "Ann"]) newBookOfBob).2.status = 201 ∧
      ∃ fields, Negotiation.text (.ofApp []) .brief
        (.object (("uri", .text "/books/1") :: fields)) .json =
          .ok (site.respond (site.reached [newAuthor "Ann"]) newBookOfBob).2.body := by
  have hcheck : ((Library.site (.ofApp []) .brief "").toOption.bind fun site =>
      (site.computed? site.emptyDatabase (newAuthor "Ann")).map fun db =>
        ((db.row? "authors" 1).isSome,
          (site.answered? db newBookOfBob).map fun r => decide (r.status = 201 ∧
            Negotiation.text (.ofApp []) .brief (.object [("uri", .text "/books/1"),
              ("id", .int 1), ("title", .text "Sea"), ("published", .null),
              ("author_id", .int 1), ("author", .object [("uri", .text "/authors/1")])])
              .json = .ok r.body))) = some (true, some true) := by
    decide +kernel
  rw [hsite] at hcheck
  obtain ⟨db, hdb, hfacts⟩ := Option.map_eq_some_iff.1 hcheck
  simp only [Prod.mk.injEq] at hfacts
  obtain ⟨hsome, hanswer⟩ := hfacts
  obtain ⟨r, hr, hchecked⟩ := Option.map_eq_some_iff.1 hanswer
  obtain ⟨hstatus, htext⟩ := of_decide_eq_true hchecked
  have hreached : site.reached [newAuthor "Ann"] = db :=
    Site.respond_of_computed? (by decide) hdb
  rw [hreached, Site.respond_of_answered? (by decide) hr]
  exact ⟨hsome, hstatus, _, htext⟩

theorem owned_by_address_bob : ∃ site db answer, Library.site (.ofApp []) .brief "" = .ok site ∧
    site.respond (site.reached [newAuthor "Ann"]) newBookOfBob = (db, answer) ∧
    answer.status = 201 ∧ ∃ k member, db.row? "books" k = some member ∧
      Row.get member "author_id" = .int 1 ∧
      answer.headers.filter (fun h => h.1 == "Location") =
        [("Location", Text.uriText (site.service.root ++ ("/books/" ++ toString k)))] := by
  obtain ⟨site, hsite⟩ := exists_site
  obtain ⟨hsome, hstatus, _, htext⟩ := respond_newBookOfBob hsite
  obtain ⟨owner, howner⟩ := Option.isSome_iff_exists.1 hsome
  have hbooks : (⟨⟨"Author", "authors", "/authors"⟩, ⟨"Book", "books", "/books"⟩, "books",
      "author", "author_id"⟩ : Family) ∈ families := by simp [families]
  have hext : Format.IsSuffix none := by simp [Format.IsSuffix]
  obtain ⟨k, member, hmember, hcell, hheader, -⟩ := owned_by_address canReply_ofApp_nil rfl rfl
    hsite [newAuthor "Ann"] hbooks howner hext (show newBookOfBob.method = "POST" from rfl)
    (by decide) rfl hstatus (Negotiation.not_isErrorText htext)
  refine ⟨site, _, _, hsite, rfl, hstatus, k, member, hmember, hcell, ?_⟩
  simpa [Shelf.entityPath, Naming.formatSuffix] using hheader

end Library

end Hypermedia
