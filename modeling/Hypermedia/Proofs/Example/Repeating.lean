import Hypermedia.Proofs.Api.Repeating
import Hypermedia.Proofs.Example.Guarding

/-!
# Changing records of the small library again

Whoever sends a request to change an author, a book, a category or a dog again changes nothing by
that (`Library.put_again`), as long as the payload describes no new records: these are made each
time.
-/

namespace Hypermedia

namespace Library

variable {settings : Settings} {detail : Detail} {mount : String} {site : Site}

theorem paired : catalog.Paired where
  back := by decide
  only := by decide
  filled := by decide

theorem orderly {reg : Registry} (h : registry = .ok reg) : catalog.Orderly reg where
  fields := by
    have hcheck : (registry.toOption.map fun reg => reg.types.all fun t =>
        (t.model.bind catalog.ofClass?).all fun m => decide (t.writableNames.Pairwise fun a b =>
          a ≠ b ∧ ((m.link? a).any Link.isList = true → (m.link? b).all Link.isList = true))) =
            some true := by
      decide
    rw [h] at hcheck
    intro t ht m hm
    have horder := of_decide_eq_true ((Option.all_eq_true _ _).1
      (List.all_eq_true.1 (Option.some.inj hcheck) t ht) m hm)
    refine horder.imp fun {a b} ⟨hne, hlist⟩ => ⟨hne, fun ⟨l, hl, hmany⟩ l' hl' => ?_⟩
    exact (Option.all_eq_true _ _).1 (hlist ((Option.any_eq_true _ _).2 ⟨l, hl, hmany⟩)) l' hl'
  single := by decide

/-- In every state that requests lead to, a request to change a record, at whatever path and with
whatever payload that describes no new records, leaves the same database when it is sent twice as
when it is sent once, however it is answered. -/
theorem put_again (hsite : Library.site settings detail mount = .ok site) (requests : List Request)
    {request : Request} (hmethod : request.method = "PUT")
    (hrefers : ∀ fields, request.payload settings = .ok fields →
      site.service.registry.RefersOnly fields) :
    (site.respond (site.respond (site.reached requests) request).1 request).1 =
      (site.respond (site.reached requests) request).1 := by
  obtain ⟨hcatalog, hreg, -, -, rfl, -, -⟩ := site_eq_ok hsite
  have hsound := (heeds hsite).sound_respondAll requests
    (Site.sound_emptyDatabase (hcatalog.symm ▸ tables_empty))
  exact Site.respond_put_again (heeds hsite) (hcatalog ▸ paired)
    (hcatalog ▸ orderly hreg) hsound hmethod hrefers

/-- A request that gives the first book of the first author to the second one. -/
def bookForSecond : Request :=
  { method := "PUT", path := "/authors/1/books/1".toList, queryNames := []
    body := (Json.object [("author", .int 2)]).compact }

theorem refersOnly_bookForSecond (reg : Registry) {fields : List (String × Value)}
    (h : bookForSecond.payload (.ofApp []) = .ok fields) : reg.RefersOnly fields := by
  have hcheck : ((bookForSecond.payload (.ofApp [])).toOption.map fun fields =>
      fields.all fun f => Payload.isReference f.2) = some true := by
    decide +kernel
  rw [h] at hcheck
  intro t _ rel _ v hv
  obtain ⟨f, hf, rfl⟩ := Option.map_eq_some_iff.1 hv
  exact List.all_eq_true.1 (Option.some.inj hcheck) f (List.mem_of_find?_eq_some hf)

/-- The book moves away from the path of the request, so that the request is refused when it is sent
again. -/
theorem put_again_bookForSecond : ∃ site, Library.site (.ofApp []) .brief "" = .ok site ∧
    (∃ book, (site.respond (site.reached [newAuthorOfBook, newAuthor "Bob"]) bookForSecond).1.row?
      "books" 1 = some book ∧ Row.get book "author_id" = .int 2) ∧
    (site.respond (site.respond (site.reached [newAuthorOfBook, newAuthor "Bob"])
      bookForSecond).1 bookForSecond).1 =
      (site.respond (site.reached [newAuthorOfBook, newAuthor "Bob"]) bookForSecond).1 := by
  have hcheck : ((Library.site (.ofApp []) .brief "").toOption.bind fun site =>
      (site.computed? site.emptyDatabase newAuthorOfBook).bind fun db =>
        (site.computed? db (newAuthor "Bob")).bind fun db =>
          (site.computed? db bookForSecond).bind fun db =>
            (db.row? "books" 1).map fun book =>
              ColumnType.integer.keeps (Row.get book "author_id") &&
                Row.get book "author_id" == .int 2) = some true := by
    decide +kernel
  obtain ⟨site, hsite⟩ := exists_site
  rw [hsite] at hcheck
  have hcheck : (site.computed? site.emptyDatabase newAuthorOfBook).bind _ = some true := hcheck
  obtain ⟨db₁, hdb₁, hcheck⟩ := Option.bind_eq_some_iff.1 hcheck
  obtain ⟨db₂, hdb₂, hcheck⟩ := Option.bind_eq_some_iff.1 hcheck
  obtain ⟨db₃, hdb₃, hcheck⟩ := Option.bind_eq_some_iff.1 hcheck
  obtain ⟨book, hbook, hauthor⟩ := Option.map_eq_some_iff.1 hcheck
  have hreached : site.reached [newAuthorOfBook, newAuthor "Bob"] = db₂ := by
    have hfirst := Site.respond_of_computed? (by decide) hdb₁
    have hnext := Site.respond_of_computed? (by decide) hdb₂
    subst hfirst
    exact hnext
  have hmoved : (site.respond (site.reached [newAuthorOfBook, newAuthor "Bob"])
      bookForSecond).1 = db₃ :=
    hreached ▸ Site.respond_of_computed? (by decide) hdb₃
  exact ⟨site, hsite, ⟨book, hmoved ▸ hbook, ColumnType.eq_int_of_keeps hauthor⟩,
    put_again hsite _ rfl fun _ => refersOnly_bookForSecond _⟩

end Library

end Hypermedia
