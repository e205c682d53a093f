import Hypermedia.Proofs.Example.Library
import Hypermedia.Proofs.Graph.Finding

/-!
# Ids in the small library

An author, a book, a category or an animal is found under every id that means its number, not
only under the one that its address has (`Library.found_by_number`). So there are records under
ids that no member of their type has, and ids that are refused (`Library.found_beside_members`).
-/

namespace Hypermedia

open Act

/-- What an id finds in a database among the records of a type, which are those of a model. -/
structure Site.FindsByNumber (site : Site) (D : Database) (t : ResourceType) (m : Model)
    (id : Value) : Prop where
  /-- Looking the id up finds the member whose number it means. That is the member whose id reads
  like it, if there is one. -/
  ways : Ends ((site.service.graph site.catalog.store).bothWays t id) (.start D)
    (fun x u => BothWays u id x.1 x.2.1.entities x.2.2 ∧ (∀ e, x.2.2 = some e → x.1 = some e) ∧
      (id.IsSpelled → x.1 = x.2.2))
    fun _ _ => id.IsTooLarge
  /-- The address of the id leads to the record of the number that it means, or to nothing. -/
  address : ∀ param, Ends
    (Scope.entity (site.service.graph site.catalog.store) [(param, id)] (.type t param)) (.start D)
    (fun e u => ∃ k row, id.Means k ∧ site.catalog.RowOf D m k row ∧ u.HasNumber e.record k)
    fun f _ => id.IsTooLarge ∨
      f = .notFound ∧ ∀ k row, id.Means k → ¬site.catalog.RowOf D m k row
  /-- A reference by the id is to the record of the number that it means, or to nothing. -/
  reference : ∀ v key errors, Payload.referredId v = id → Ends
    ((site.service.entities site.catalog.store).refer t key v errors) (.start D)
    (fun x u => (∀ r, x.1 = some r → ∃ k row, id.Means k ∧ site.catalog.RowOf D m k row ∧
        u.HasNumber r k) ∧
      (x.1 = none → ∀ k row, id.Means k → ¬site.catalog.RowOf D m k row))
    fun _ _ => id.IsTooLarge

namespace Library

variable {settings : Settings} {detail : Detail} {mount : String} {site : Site}

/-- In every state that requests lead to, all ids that texts and payloads may have find records
by the numbers that they mean, and fail only for numbers that the store cannot hold. -/
theorem found_by_number (hsettings : settings.CanReply)
    (hsite : Library.site settings detail mount = .ok site) (requests : List Request)
    {t : ResourceType} (ht : t ∈ site.service.registry.types) {id : Value}
    (hid : id.isDocument = true) : ∃ m, t.model.bind site.catalog.ofClass? = some m ∧
      site.FindsByNumber (site.reached requests) t m id := by
  obtain ⟨hcatalog, -⟩ := site_eq_ok hsite
  obtain ⟨hp, hx, -⟩ := (stands hsettings hsite).serves
  have hD := sound_reached hsettings hsite requests
  rw [← hcatalog] at hD
  obtain ⟨m, hm⟩ := hx.presents t ht
  have hI := Catalog.Drafts.reading hp hD
  have hstart := Catalog.drafts_start (c := site.catalog) (site.reached requests)
  refine ⟨m, hm.model, ⟨?_, fun param => ?_, ?_⟩⟩
  · refine (reads_bothWays hI hp hD hm.model id hstart).imp ?_ fun _ _ h => h.2.2
    exact fun x u ⟨_, _, h⟩ => ⟨h, fun e => h.found_of_member hid, h.eq_of_isSpelled hid⟩
  · exact ends_entityAt hI hp hD hm.model id param hstart
  · rintro v key errors rfl
    exact ends_reference hI hp hD hm.model v key errors hstart

theorem found_by_number_ann : ∃ site t m, Library.site (.ofApp []) .brief "" = .ok site ∧
    t ∈ site.service.registry.types ∧
      site.FindsByNumber (site.reached [newAuthor "Ann"]) t m (.text "01") := by
  obtain ⟨site, hsite⟩ := exists_site
  obtain ⟨-, hreg, -⟩ := site_eq_ok hsite
  obtain ⟨m, hm, -⟩ := exists_fills (x := ⟨"Author", "authors", "/authors"⟩) (by simp [shelves])
  obtain ⟨t, ht, -⟩ := exists_typeOf hreg (x := ⟨"Author", "authors", "/authors"⟩)
    (by simp [shelves]) hm
  obtain ⟨m, -, hfinds⟩ := found_by_number canReply_ofApp_nil hsite [newAuthor "Ann"]
    (Registry.typeOf?_mem ht) (show (Value.text "01").isDocument = true from rfl)
  exact ⟨site, t, m, hsite, Registry.typeOf?_mem ht, hfinds⟩

/-- Is a record of the type found under "01" though no member of the type reads like that, and is
a large number refused? -/
def isFoundBesideMembers (g : ResourceGraph Act Ref) (t : ResourceType) (s : Session) : Bool :=
  (match ((g.bothWays t (.text "01")).exec s).1 with
    | .ok x => x.1.isSome && x.2.2.isNone
    | .error _ => false) &&
  match ((g.lookup t (.text "99999999999999999999")).exec s).1 with
    | .ok _ => false
    | .error f => f.status == 500

theorem ends_of_isFoundBesideMembers {g : ResourceGraph Act Ref} {t : ResourceType} {s : Session}
    (h : isFoundBesideMembers g t s = true) :
    Ends (g.bothWays t (.text "01")) s (fun x _ => x.1.isSome = true ∧ x.2.2 = none)
        (fun _ _ => False) ∧
      Ends (g.lookup t (.text "99999999999999999999")) s (fun _ _ => False)
        fun f _ => f.status = 500 := by
  obtain ⟨hways, hlarge⟩ := Bool.and_eq_true_iff.1 h
  unfold Ends
  constructor
  · rcases hexec : (g.bothWays t (.text "01")).exec s with ⟨x | x, u⟩
    · simp [hexec] at hways
    · simpa [hexec] using hways
  · rcases hexec : (g.lookup t (.text "99999999999999999999")).exec s with ⟨x | x, u⟩
    · simpa [hexec] using hlarge
    · simp [hexec] at hlarge

/-- The first author is found under "01", though no author has that id, and asking for a large
number fails. -/
theorem found_beside_members : ∃ site, Library.site (.ofApp []) .brief "" = .ok site ∧
    ∃ t ∈ site.service.registry.types,
      Ends ((site.service.graph site.catalog.store).bothWays t (.text "01"))
        (.start (site.reached [newAuthor "Ann"]))
        (fun x _ => x.1.isSome = true ∧ x.2.2 = none) (fun _ _ => False) ∧
      Ends ((site.service.graph site.catalog.store).lookup t (.text "99999999999999999999"))
        (.start (site.reached [newAuthor "Ann"])) (fun _ _ => False) fun f _ => f.status = 500 := by
  have hcheck : ((Library.site (.ofApp []) .brief "").toOption.bind fun site =>
      (site.computed? site.emptyDatabase (newAuthor "Ann")).map fun db =>
        site.service.registry.types.any fun t =>
          isFoundBesideMembers (site.service.graph site.catalog.store) t (.start db)) =
            some true := by
    decide +kernel
  obtain ⟨site, hsite⟩ := exists_site
  rw [hsite] at hcheck
  obtain ⟨db, hdb, hany⟩ := Option.map_eq_some_iff.1 hcheck
  obtain ⟨t, ht, hfoundBeside⟩ := List.any_eq_true.1 hany
  have hreached : site.reached [newAuthor "Ann"] = db :=
    Site.respond_of_computed? (by decide) hdb
  refine ⟨site, hsite, t, ht, ?_⟩
  rw [hreached]
  exact ends_of_isFoundBesideMembers hfoundBeside

end Library

end Hypermedia
