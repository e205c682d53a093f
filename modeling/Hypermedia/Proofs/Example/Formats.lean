import Hypermedia.Proofs.Api.Filled
import Hypermedia.Proofs.Api.Formats
import Hypermedia.Proofs.Example.Library

/-!
# The small library as pages

Where the settings of the library name pages as the format of addresses without a suffix, whoever
asks for an author that there is gets a page, and whoever asks for one that there is not gets a
document (`Library.fault_told_as_document`).
-/

namespace Hypermedia

namespace Library

/-- Answers are pages unless documents are asked for. -/
def pages : Settings := .ofApp [("DEFAULT_FORMAT", .text "json.html")]

/-- A request for the first author. -/
def firstAuthor : Request :=
  { method := "GET", path := "/authors/1".toList, queryNames := [], body := "" }

theorem exists_pages_site : ∃ site, Library.site pages .brief "" = .ok site := by
  have hsome : (Library.site pages .brief "").toOption.isSome = true := by decide +kernel
  obtain ⟨site, hsite⟩ := Option.isSome_iff_exists.1 hsome
  exact ⟨site, toOption_eq_some.1 hsite⟩

variable {site : Site} (hsite : Library.site pages .brief "" = .ok site)

include hsite

/-- A route reads the address of the first author. -/
theorem matchOf?_firstAuthor : ∃ p y x, site.service.matchOf? firstAuthor = some (p, y) ∧
    p.target = .route x ∧ x.kind = .entity ∧ y.suffix = none := by
  obtain ⟨-, hreg, -, hexposes, -⟩ := site_eq_ok hsite
  have hshelf : (⟨"Author", "authors", "/authors"⟩ : Shelf) ∈ shelves := by simp [shelves]
  obtain ⟨m, hm, -, hfills⟩ := exists_fills hshelf
  obtain ⟨t, ht, -, hplural⟩ := exists_typeOf hreg hshelf hm
  have hpath : firstAuthor.path = t.address "1".toList none := by
    rw [ResourceType.address]
    have hname : t.pluralName = "authors" := (String.append_right_inj "/").1 hplural
    rw [hname]
    decide
  obtain ⟨p, x, q, hchosen, htarget, hkind, -⟩ := Service.exists_chosen?_address hexposes
    (separates hsite rfl rfl) ((exposed hreg).presents_of_typeOf hfills.mem ht).1 (by decide)
    (by simp) (show firstAuthor.method = "GET" from rfl) hpath
  exact ⟨p, _, x, hchosen, htarget, hkind, rfl⟩

/-- The answers to a request for the first author, before there is one and then. -/
theorem answers_firstAuthor :
    ((site.respond (site.reached []) firstAuthor).2.status = 404 ∧
      (site.respond (site.reached []) firstAuthor).2.contentType = "application/json" ∧
      (site.respond (site.reached []) firstAuthor).2.body ≠ "") ∧
    (site.respond (site.reached [newAuthor "Ann"]) firstAuthor).2.status = 200 ∧
      (site.respond (site.reached [newAuthor "Ann"]) firstAuthor).2.contentType =
        "text/html; charset=utf-8" := by
  have hcheck : ((Library.site pages .brief "").toOption.bind fun site =>
      (site.computed? site.emptyDatabase (newAuthor "Ann")).map fun db =>
        ((site.answered? site.emptyDatabase firstAuthor).map fun r =>
            (r.status, r.contentType, r.body == ""),
          (site.answered? db firstAuthor).map fun r => (r.status, r.contentType))) =
      some (some (404, "application/json", false), some (200, "text/html; charset=utf-8")) := by
    decide +kernel
  rw [hsite] at hcheck
  obtain ⟨db, hdb, hanswers⟩ := Option.map_eq_some_iff.1 hcheck
  obtain ⟨hbefore, hafter⟩ := by simpa only [Prod.mk.injEq] using hanswers
  obtain ⟨r, hr, hbefore⟩ := Option.map_eq_some_iff.1 hbefore
  obtain ⟨r', hr', hafter⟩ := Option.map_eq_some_iff.1 hafter
  obtain ⟨hstatus, htype, hbody⟩ := by simpa only [Prod.mk.injEq] using hbefore
  obtain ⟨hstatus', htype'⟩ := by simpa only [Prod.mk.injEq] using hafter
  have hreached : site.reached [newAuthor "Ann"] = db := Site.respond_of_computed? (by decide) hdb
  rw [hreached, Site.respond_of_answered? (by decide) hr',
    show site.reached [] = site.emptyDatabase from rfl,
    Site.respond_of_answered? (by decide) hr]
  exact ⟨⟨hstatus, htype, by simpa using hbody⟩, hstatus', htype'⟩

omit hsite

/-- The fault is told as a document. -/
theorem isIn_of_respond_firstAuthor : ∃ site, Library.site pages .brief "" = .ok site ∧
    (site.respond (site.reached []) firstAuthor).2.contentType = "application/json" ∧
    ∃ fault, (site.respond (site.reached []) firstAuthor).2 = site.service.tell fault none [] := by
  obtain ⟨site, hsite⟩ := exists_pages_site
  obtain ⟨p, y, x, hmatch, htarget, -, hsuffix⟩ := matchOf?_firstAuthor hsite
  obtain ⟨-, -, -, -, hsettings, -⟩ := site_eq_ok hsite
  obtain ⟨-, htype, hbody⟩ := (answers_firstAuthor hsite).1
  have hin := Site.isIn_of_respond (f := .page) (by rw [hsettings]; rfl) (site.reached []) hmatch
    htarget (by simp [Negotiation.IsSupported, hsuffix])
  refine ⟨site, hsite, htype, ?_⟩
  rcases hin with (hempty | htype') | ⟨-, -, -, htold⟩
  · exact absurd hempty hbody
  · rw [htype, hsuffix] at htype'
    exact absurd htype' (by decide)
  · exact htold

/-- At one address and with one configuration, a fault is told as a document and the author is
shown as a page. -/
theorem fault_told_as_document : ∃ site p y x, Library.site pages .brief "" = .ok site ∧
    pages.get "DEFAULT_FORMAT" = .text "json.html" ∧
    site.service.matchOf? firstAuthor = some (p, y) ∧ p.target = .route x ∧ y.suffix = none ∧
    ((site.respond (site.reached []) firstAuthor).2.status = 404 ∧
      (site.respond (site.reached []) firstAuthor).2.contentType = "application/json" ∧
      (site.respond (site.reached []) firstAuthor).2.body ≠ "") ∧
    (site.respond (site.reached [newAuthor "Ann"]) firstAuthor).2.status = 200 ∧
      (site.respond (site.reached [newAuthor "Ann"]) firstAuthor).2.contentType =
        "text/html; charset=utf-8" := by
  obtain ⟨site, hsite⟩ := exists_pages_site
  obtain ⟨p, y, x, hmatch, htarget, -, hsuffix⟩ := matchOf?_firstAuthor hsite
  exact ⟨site, p, y, x, hsite, rfl, hmatch, htarget, hsuffix, answers_firstAuthor hsite⟩

end Library

end Hypermedia
