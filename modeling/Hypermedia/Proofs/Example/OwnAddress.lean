import Hypermedia.Proofs.Api.OwnAddress
import Hypermedia.Proofs.Example.Echoing

/-!
# Records of the small library have one representation

A book of the library is found among all books, among those of its author, and among those of
its author that have no title; its author also by way of the book. A dog is found among the dogs
and among the animals. Whichever path is taken, the answer is the one that is given at the address
in it, which is the record's own (`Library.shown_at_own_address`).
-/

namespace Hypermedia

namespace Library

variable {settings : Settings} {detail : Detail} {site : Site}

/-- In every state that requests lead to, whoever reads one record as a document, by whichever
route, is told a fault or the address of the record at the route to the entities of its own type,
with the suffix that was asked for; reading this address is answered alike. -/
theorem shown_at_own_address (hsettings : settings.CanReply)
    (hroot : settings.get "ROOT_PATH" = .text "/root")
    (hschema : settings.get "SCHEMA_PATH" = .text "/schema")
    (hurl : settings.get "URL_ROOT" = .text "")
    (hformat : settings.get "DEFAULT_FORMAT" = .text "json")
    (hsite : Library.site settings detail "" = .ok site) (requests : List Request)
    {request : Request} (hmethod : request.method = "GET") {p : Place Endpoint} {y : Match}
    (hmatch : site.service.matchOf? request = some (p, y)) {x : Route}
    (htarget : p.target = .route x) (hkind : x.kind = .entity ∨ x.kind = .singular)
    (hsuffix : y.suffix = none ∨ y.suffix = some "json") {db : Database} {answer : Response}
    (hrespond : site.respond (site.reached requests) request = (db, answer))
    (hstatus : answer.status = 200) :
    ∃ scope t m k row top doc, x.scope = some scope ∧
      site.service.LeadsTo catalog (site.reached requests) scope y.params t m k row ∧
      site.service.routes.IsTop t top ∧
      answer.body = (Json.object doc).compact ∧
      Fields.get? "uri" doc = some (.text (top.address [toString k] y.suffix)) ∧
      (site.respond db (.ofAddress "GET" (top.address [toString k] y.suffix) "")).2.status = 200 ∧
      (site.respond db (.ofAddress "GET" (top.address [toString k] y.suffix) "")).2.body =
        answer.body := by
  have hstands := stands hsettings hsite
  have hechoes := echoes hsite hroot hschema hurl
  have hsound := sound_reached hsettings hsite requests
  obtain ⟨hcatalog, -, -, -, rfl, rfl, -⟩ := site_eq_ok hsite
  rw [← hcatalog] at hsound ⊢
  -- Reading leaves the state as it was.
  have hkept : db = site.reached requests := by
    obtain ⟨-, hkept | ⟨hwrites, -⟩⟩ := Site.respond_settles hstands hsound request
    · rwa [hrespond] at hkept
    · exact absurd (by rw [hmethod]; rfl) hwrites
  obtain ⟨scope, hscope, hshows⟩ := Site.showsOwn_of_respond hstands hsound hmethod hmatch
    htarget hkind (by rwa [hrespond])
  rw [hrespond] at hshows
  obtain ⟨t, m, k, row, top, fields, hleads, htop, hbody, huri, hgot, hsame⟩ :=
    Site.read_of_showsOwn hstands hsound hechoes hshows
  obtain ⟨doc, hdoc, hfields⟩ := hbody.exists_object (choose_document hformat hsuffix)
  obtain ⟨d, hd, htext⟩ := hfields "uri" _ huri
  obtain rfl := Except.ok.inj htext
  subst hkept
  exact ⟨scope, t, m, k, row, top, doc, hscope, hleads, htop, hdoc, hd, hgot, hsame⟩

/-- A request for a new dog. -/
def newDog (name : String) : Request :=
  { method := "POST", path := "/dogs".toList, queryNames := []
    body := (Json.object [("name", .text name)]).compact }

/-- A request for the first animal. -/
def firstAnimal : Request :=
  { method := "GET", path := "/animals/1".toList, queryNames := [], body := "" }

/-- The route to the entities of the animals reads the address of the first animal. -/
theorem matchOf?_firstAnimal (hsite : Library.site (.ofApp []) .brief "" = .ok site) :
    ∃ p y x, site.service.matchOf? firstAnimal = some (p, y) ∧ p.target = .route x ∧
      x.kind = .entity ∧ y.suffix = none := by
  obtain ⟨-, hreg, -, hexposes, -⟩ := site_eq_ok hsite
  have hcheck : (registry.toOption.map fun reg => reg.types.any fun t =>
      t.pluralName == "animals") = some true := by
    decide
  rw [hreg] at hcheck
  obtain ⟨t, ht, hname⟩ := List.any_eq_true.1 (Option.some.inj hcheck)
  have hpath : firstAnimal.path = t.address "1".toList none := by
    rw [ResourceType.address, eq_of_beq hname]
    decide
  obtain ⟨p, x, q, hchosen, htarget, hkind, -⟩ := Service.exists_chosen?_address hexposes
    (separates hsite rfl rfl) ht (by decide) (by simp) (show firstAnimal.method = "GET" from rfl)
    hpath
  exact ⟨p, _, x, hchosen, htarget, hkind, rfl⟩

/-- The first dog is shown as the first animal. -/
theorem status_firstAnimal (hsite : Library.site (.ofApp []) .brief "" = .ok site) :
    (site.respond (site.reached [newDog "Rex"]) firstAnimal).2.status = 200 := by
  have hcheck : ((Library.site (.ofApp []) .brief "").toOption.bind fun site =>
      (site.computed? site.emptyDatabase (newDog "Rex")).map fun db =>
        (site.answered? db firstAnimal).map Response.status) = some (some 200) := by
    decide +kernel
  rw [hsite] at hcheck
  obtain ⟨db, hdb, hanswer⟩ := Option.map_eq_some_iff.1 hcheck
  obtain ⟨r, hr, hstatus⟩ := Option.map_eq_some_iff.1 hanswer
  have hreached : site.reached [newDog "Rex"] = db := Site.respond_of_computed? (by decide) hdb
  rwa [hreached, Site.respond_of_answered? (by decide) hr]

theorem shown_at_own_address_rex : ∃ site db answer location doc,
    Library.site (.ofApp []) .brief "" = .ok site ∧
    site.respond (site.reached [newDog "Rex"]) firstAnimal = (db, answer) ∧
    answer.status = 200 ∧ answer.body = (Json.object doc).compact ∧
    Fields.get? "uri" doc = some (.text location) ∧
    (site.respond db (.ofAddress "GET" location "")).2.status = 200 ∧
    (site.respond db (.ofAddress "GET" location "")).2.body = answer.body := by
  obtain ⟨site, hsite⟩ := exists_site
  obtain ⟨p, y, x, hmatch, htarget, hkind, hsuffix⟩ := matchOf?_firstAnimal hsite
  obtain ⟨-, -, -, k, -, top, doc, -, -, -, hbody, huri, hgot, hsame⟩ :=
    shown_at_own_address canReply_ofApp_nil rfl rfl rfl rfl hsite [newDog "Rex"]
      (show firstAnimal.method = "GET" from rfl) hmatch htarget (Or.inl hkind) (Or.inl hsuffix) rfl
      (status_firstAnimal hsite)
  exact ⟨site, _, _, _, doc, hsite, rfl, status_firstAnimal hsite, hbody, huri, hgot, hsame⟩

end Library

end Hypermedia
