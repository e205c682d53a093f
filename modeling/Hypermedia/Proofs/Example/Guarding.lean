import Hypermedia.Proofs.Api.Guarding
import Hypermedia.Proofs.Example.Library

/-!
# The rules of the small library

Permanent books cannot be destroyed, and no author gets a new name in capitals: no request gets
around this, whatever its address is and whatever is nested in its payload
(`Library.permanent_and_unshouted`).
-/

namespace Hypermedia

namespace Library

variable {settings : Settings} {detail : Detail} {mount : String} {site : Site}

/-- The rules of a site of the library are heard. -/
theorem heeds (h : Library.site settings detail mount = .ok site) : site.Heeds := by
  simp only [Library.site, bind_eq_ok] at h
  obtain ⟨reg, hreg, hserve⟩ := h
  exact (Site.Heeds.of_serve hserve plain (exposed hreg)
    (Registry.isHeard_of_admitsAll (admits hreg) rules)).1

/-- Rules with the tables of the records that they are for and the contexts in which they are
checked. -/
def checks : List (String × String × Context) :=
  [("authors", "no_shouting", .update), ("books", "permanent_books", .destroy)]

/-- Where the rules allow a row, the rule for its table is silent. -/
theorem silent_of_allows {reg : Registry} (h : registry = .ok reg) {table name : String}
    {y : Context} (hcheck : (table, name, y) ∈ checks) {row : Row}
    (hallows : catalog.Allows reg rules y table row) {rule : Rule}
    (hrule : rules.get name = .ok rule) :
    (rule.verdict (Row.get row rule.field) >>= Errors.ofVerdict) = .ok [] := by
  have hall : (registry.toOption.map fun reg => checks.all fun x => catalog.models.all fun m =>
      m.rootTable != x.1 || (reg.typeOf? m.recordClass).all fun t =>
        t.validators.any fun v => v.rule == x.2.1 && v.applies x.2.2) = some true := by
    decide
  rw [h] at hall
  obtain ⟨m, t, htype, hpass⟩ := hallows
  have hmodel := List.all_eq_true.1
    (List.all_eq_true.1 (Option.some.inj hall) _ hcheck) m htype.mem
  simp only [htype.table, bne_self_eq_false, Bool.false_or, htype.type, Option.all_some,
    List.any_eq_true, Bool.and_eq_true, beq_iff_eq] at hmodel
  obtain ⟨v, hv, rfl, happlies⟩ := hmodel
  obtain ⟨rule', hrule', hsilent⟩ := hpass v (List.mem_filter.2 ⟨hv, happlies⟩)
  obtain rfl := Except.ok.inj (hrule.symm.trans hrule')
  exact hsilent

/-- A book that may be removed is not permanent. -/
theorem title_ne_of_allows {reg : Registry} (h : registry = .ok reg) {row : Row}
    (hallows : catalog.Allows reg rules .destroy "books" row) :
    Row.get row "title" ≠ .text "Permanent" := by
  have hholds : Test.equals.holds (Row.get row "title") (.text "Permanent") = .ok false :=
    Rule.holds_of_silent (by decide)
      (silent_of_allows h (by decide : ("books", "permanent_books", .destroy) ∈ checks) hallows
        (rfl : rules.get "permanent_books" = .ok permanentBooks))
  intro htitle
  rw [htitle] at hholds
  revert hholds
  decide

/-- An author may not be changed to one whose name is in capitals. -/
theorem isShouting_of_allows {reg : Registry} (h : registry = .ok reg) {row : Row}
    (hallows : catalog.Allows reg rules .update "authors" row) {name : String}
    (hname : Row.get row "name" = .text name) : Text.isShouting name = false := by
  have hholds : Test.shouting.holds (Row.get row "name") .null = .ok false :=
    Rule.holds_of_silent (by decide)
      (silent_of_allows h (by decide : ("authors", "no_shouting", .update) ∈ checks) hallows
        (rfl : rules.get "no_shouting" = .ok noShouting))
  rw [hname] at hholds
  exact Except.ok.inj hholds

section

variable {reg : Registry} {D db : Database} (h : registry = .ok reg) (hD : catalog.Sound D)
  (hobeys : catalog.Obeys reg rules D db)

include h hD hobeys

/-- A permanent book is still there after a writing that obeys the rules. -/
theorem exists_of_permanent {row : Row} (hrow : row ∈ D.rowsOf "books")
    (htitle : Row.get row "title" = .text "Permanent") :
    ∃ row' ∈ db.rowsOf "books", Row.get row' "id" = Row.get row "id" := by
  obtain ⟨k, hk, hfound⟩ := hD.exists_key hrow
  obtain ⟨t, ht, hname⟩ : ∃ t ∈ catalog.tables, t.name = "books" := by decide
  cases hafter : db.row? "books" k with
  | none =>
    have hgone := hobeys.removed t ht k row
    rw [hname] at hgone
    exact absurd htitle (title_ne_of_allows h (hgone hfound hafter))
  | some row' =>
    obtain ⟨u, hu, hmem, hk'⟩ := hobeys.sound.row?_eq_some.1 hafter
    exact ⟨row', Database.mem_rowsOf.2 ⟨u, hu, hmem⟩, hk'.trans hk.symm⟩

/-- An author who has another name after a writing that obeys the rules has none in capitals. -/
theorem isShouting_of_renamed {row row' : Row} (hrow : row ∈ D.rowsOf "authors")
    (hrow' : row' ∈ db.rowsOf "authors") (hid : Row.get row' "id" = Row.get row "id")
    (hne : Row.get row' "name" ≠ Row.get row "name") :
    ∃ name, Row.get row' "name" = .text name ∧ Text.isShouting name = false := by
  obtain ⟨k, hk, hfound⟩ := hD.exists_key hrow
  obtain ⟨k', hk', hfound'⟩ := hobeys.sound.exists_key hrow'
  obtain rfl : k' = k := Value.int.inj (hk'.symm.trans (hid.trans hk))
  obtain ⟨t, ht, hname, x, hx, hxname, hto⟩ : ∃ t ∈ catalog.tables, t.name = "authors" ∧
      ∃ x ∈ t.columns, x.name = "name" ∧ x.refersTo = none := by decide
  have hallows := hobeys.changed t ht k' row row'
  rw [hname] at hallows
  have hallows := hallows hfound hfound' x hx hto (hxname.symm ▸ hne)
  have htext : Row.get row' "name" = .null ∨ ∃ name, Row.get row' "name" = .text name :=
    hobeys.sound.text_of_mem_rowsOf hrow' (by decide)
  have hsome : Row.get row' "name" ≠ .null := hobeys.sound.ne_null_of_mem_rowsOf hrow' (by decide)
  obtain ⟨name, hvalue⟩ := htext.resolve_left hsome
  exact ⟨name, hvalue, isShouting_of_allows h hallows hvalue⟩

end

/-- In every state that requests lead to, a permanent book is still stored after a request, and
if an author has another name after it then the new name is not in capitals. -/
theorem permanent_and_unshouted (hsite : Library.site settings detail mount = .ok site)
    (requests : List Request) (request : Request) :
    (∀ row ∈ (site.reached requests).rowsOf "books", Row.get row "title" = .text "Permanent" →
      ∃ row' ∈ (site.respond (site.reached requests) request).1.rowsOf "books",
        Row.get row' "id" = Row.get row "id") ∧
    ∀ row ∈ (site.reached requests).rowsOf "authors",
      ∀ row' ∈ (site.respond (site.reached requests) request).1.rowsOf "authors",
        Row.get row' "id" = Row.get row "id" → Row.get row' "name" ≠ Row.get row "name" →
          ∃ name, Row.get row' "name" = .text name ∧ Text.isShouting name = false := by
  obtain ⟨hcatalog, hreg, hrules, -⟩ := site_eq_ok hsite
  have hD := (heeds hsite).sound_respondAll requests
    (Site.sound_emptyDatabase (hcatalog.symm ▸ tables_empty))
  have hobeys := Site.respond_obeys (heeds hsite) hD request
  rw [hcatalog] at hD
  rw [hcatalog, hrules] at hobeys
  exact ⟨fun row hrow htitle => exists_of_permanent hreg hD hobeys hrow htitle,
    fun row hrow row' hrow' hid hne => isShouting_of_renamed hreg hD hobeys hrow hrow' hid hne⟩

theorem permanent_and_unshouted_ann : ∃ site, Library.site (.ofApp []) .brief "" = .ok site ∧
    ∃ row ∈ (site.reached [newAuthorOfBook]).rowsOf "books",
      Row.get row "title" = .text "Permanent" ∧
        ∃ row' ∈ (site.respond (site.reached [newAuthorOfBook])
            { method := "DELETE", path := "/books/1".toList, queryNames := []
              body := "" }).1.rowsOf "books", Row.get row' "id" = Row.get row "id" := by
  have hcheck : ((Library.site (.ofApp []) .brief "").toOption.bind fun site =>
      (site.computed? site.emptyDatabase newAuthorOfBook).map fun db =>
        (db.rowsOf "books").any fun row => Value.text "Permanent" == Row.get row "title") =
          some true := by
    decide +kernel
  obtain ⟨site, hsite⟩ := exists_site
  rw [hsite] at hcheck
  obtain ⟨db, hdb, hany⟩ := Option.map_eq_some_iff.1 hcheck
  obtain ⟨row, hrow, htitle⟩ := List.any_eq_true.1 hany
  have hreached : site.reached [newAuthorOfBook] = db :=
    Site.respond_of_computed? (by decide) hdb
  rw [← hreached] at hrow
  have htitle := Value.text_beq_eq htitle
  exact ⟨site, hsite, row, hrow, htitle,
    (permanent_and_unshouted hsite [newAuthorOfBook] _).1 row hrow htitle⟩

end Library

end Hypermedia
