import Hypermedia.Proofs.Api.Echoing
import Hypermedia.Proofs.Example.Library

/-!
# New records of the small library can be read

With the options that every application has, the library echoes what it is given
(`Library.echoes`). So whoever is told of a new author, book, category or dog finds it at the
address that was told, as it was answered, with the texts, truth values and dates that the
payload gave to its properties (`Library.created_and_read`).
-/

namespace Hypermedia

namespace Library

variable {settings : Settings} {detail : Detail} {site : Site}

theorem echoes (hsite : Library.site settings detail "" = .ok site)
    (hroot : settings.get "ROOT_PATH" = .text "/root")
    (hschema : settings.get "SCHEMA_PATH" = .text "/schema")
    (hurl : settings.get "URL_ROOT" = .text "") : site.Echoes := by
  have hcheck : (registry.toOption.map fun reg => decide (
      (∀ t ∈ reg.types, t.pluralName ≠ "" ∧ t.pluralName.toList.all Text.isPathChar = true) ∧
      ∀ d ∈ reg.types, ∀ m ∈ d.model.bind catalog.ofClass?,
        ∀ t ∈ reg.typeOf? m.recordClass, ∀ p ∈ d.writableProperties,
          ∃ q ∈ t.readableProperties, q.name = p.name)) = some true := by
    decide
  have hseparates := separates hsite hroot hschema
  obtain ⟨hcatalog, hreg, -, -, rfl, -, -⟩ := site_eq_ok hsite
  rw [hreg] at hcheck
  obtain ⟨hplural, hreadable⟩ := of_decide_eq_true (Option.some.inj hcheck)
  rw [← hcatalog] at hreadable
  refine ⟨hseparates, ?_, fun m hm hbuilt => ?_,
    fun t ht => (hplural t ht).imp_right List.all_eq_true.1, fieldNames_nodup hreg,
    hreadable⟩
  · rw [Service.root, hurl, hseparates.mount]
    rfl
  · rw [hcatalog] at hm ⊢
    exact fills_of_isBuilt hm hbuilt

/-- Without a suffix, and with the one of documents, documents are answered. -/
theorem choose_document (hformat : settings.get "DEFAULT_FORMAT" = .text "json")
    {suffix : Option String} (hsuffix : suffix = none ∨ suffix = some Format.json.name) :
    Negotiation.choose settings suffix = .ok (.text Format.json.name) := by
  rcases hsuffix with rfl | rfl
  · have htruthy : (Value.text "json").truthy = true := by decide
    rw [Negotiation.choose, hformat, if_pos htruthy]
    rfl
  · rw [Negotiation.choose, if_pos (by decide)]

/-- Whoever asks for no page is answered with a document. -/
theorem choose_suffix? (hformat : settings.get "DEFAULT_FORMAT" = .text "json")
    {s : Service} {request : Request} (hpage : ¬".json.html".toList <:+ request.path)
    (hsuffix : Format.IsSuffix (s.suffix? request)) :
    Negotiation.choose settings (s.suffix? request) = .ok (.text Format.json.name) := by
  refine choose_document hformat ?_
  cases h : s.suffix? request with
  | none => exact Or.inl rfl
  | some e =>
    rcases hsuffix.eq e h with rfl | rfl
    · exact Or.inr rfl
    · exact absurd (Service.isSuffix_of_suffix? h) hpage

/-- In every state that requests lead to, an answer that tells of a new record and of no errors
has its address in a header and in the document, and whoever asks for this address gets the same
document. What the payload gave to the properties that clients may write is there: texts, truth
values and dates as they were given. -/
theorem created_and_read (hsettings : settings.CanReply)
    (hroot : settings.get "ROOT_PATH" = .text "/root")
    (hschema : settings.get "SCHEMA_PATH" = .text "/schema")
    (hurl : settings.get "URL_ROOT" = .text "")
    (hformat : settings.get "DEFAULT_FORMAT" = .text "json")
    (hsite : Library.site settings detail "" = .ok site) (requests : List Request)
    {request : Request} (hmethod : request.method = "POST")
    (hpage : ¬".json.html".toList <:+ request.path) {db : Database} {answer : Response}
    (hrespond : site.respond (site.reached requests) request = (db, answer))
    (hstatus : answer.status = 201)
    (herror : ¬Negotiation.IsErrorText settings detail answer.body) :
    ∃ t location doc, site.service.memberType? request = some t ∧
      answer.headers.filter (fun h => h.1 == "Location") = [("Location", location)] ∧
      answer.body = (Json.object doc).compact ∧
      Fields.get? "uri" doc = some (.text location) ∧
      (site.respond db (.ofAddress "GET" location "")).2.status = 200 ∧
      (site.respond db (.ofAddress "GET" location "")).2.body = answer.body ∧
      ∀ payload, request.payload settings = .ok payload →
        ∀ p ∈ t.writableProperties, ∀ v type, Fields.get? p.name payload = some v →
          catalog.columnType? t p.name = some type → type.Echoes v →
            (Fields.get? p.name doc).map Format.ofDocument = some v := by
  have hstands := stands hsettings hsite
  have hechoes := echoes hsite hroot hschema hurl
  have hsound := sound_reached hsettings hsite requests
  obtain ⟨hcatalog, -, -, -, rfl, rfl, -⟩ := site_eq_ok hsite
  rw [← hcatalog] at hsound ⊢
  have hafter := (Site.respond_settles hstands hsound request).1
  obtain ⟨t, ht, hcreates⟩ := Site.creates_of_respond hstands hsound hmethod
    (by rwa [hrespond]) (by rwa [hrespond])
  rw [hrespond] at hafter hcreates
  obtain ⟨location, fields, hheader, hbody, hlocation, hgot, hsame, hgiven⟩ :=
    Site.read_of_creates hstands hechoes hafter hcreates
  obtain ⟨d, hd, hcompact⟩ :=
    hbody.exists_document (choose_suffix? hformat hpage hbody.isSuffix)
  obtain ⟨doc, rfl, hdoc⟩ := Format.document_object.1 hd
  have hshown : ∀ {name : String} {v : Value} {j : Json}, Fields.get? name fields = some v →
      Format.document site.service.detail v = .ok j → Fields.get? name doc = some j := by
    intro name v j hv hj
    obtain ⟨j', hj', hv'⟩ := Format.get?_document hdoc hv
    rw [hj', ← Except.ok.inj (hj.symm.trans hv')]
  refine ⟨t, location, doc, ht, hheader, hcompact, hshown hlocation rfl, hgot, hsame,
    fun payload hpayload p hp v type hv htype hkept => ?_⟩
  obtain ⟨w, j, hw, hj, rfl⟩ := hgiven payload hpayload p hp v type hv htype hkept
  rw [hshown hw hj]
  rfl

/-- The first author is answered with its full form. -/
theorem respond_newAuthor (hsite : Library.site (.ofApp []) .brief "" = .ok site) :
    (site.respond (site.reached []) (newAuthor "Ann")).2.status = 201 ∧
      ∃ fields, Negotiation.text (.ofApp []) .brief
        (.object (("uri", .text "/authors/1") :: fields)) .json =
          .ok (site.respond (site.reached []) (newAuthor "Ann")).2.body := by
  have hcheck : ((Library.site (.ofApp []) .brief "").toOption.bind fun site =>
      (site.answered? site.emptyDatabase (newAuthor "Ann")).map fun r => decide (r.status = 201 ∧
        Negotiation.text (.ofApp []) .brief (.object [("uri", .text "/authors/1"),
          ("id", .int 1), ("name", .text "Ann"),
          ("books", .object [("uri", .text "/authors/1/books"), ("count", .int 0)]),
          ("untitled_books", .object [("uri", .text "/authors/1/untitled_books"),
            ("count", .int 0)])]) .json = .ok r.body)) = some true := by
    decide +kernel
  rw [hsite] at hcheck
  obtain ⟨r, hr, hchecked⟩ := Option.map_eq_some_iff.1 hcheck
  obtain ⟨hstatus, htext⟩ := of_decide_eq_true hchecked
  rw [show site.reached [] = site.emptyDatabase from rfl,
    Site.respond_of_answered? (by decide) hr]
  exact ⟨hstatus, _, htext⟩

theorem created_and_read_ann : ∃ site db answer location,
    Library.site (.ofApp []) .brief "" = .ok site ∧
    site.respond (site.reached []) (newAuthor "Ann") = (db, answer) ∧ answer.status = 201 ∧
    answer.headers.filter (fun h => h.1 == "Location") = [("Location", location)] ∧
    (site.respond db (.ofAddress "GET" location "")).2.body = answer.body := by
  obtain ⟨site, hsite⟩ := exists_site
  obtain ⟨hstatus, _, htext⟩ := respond_newAuthor hsite
  obtain ⟨-, location, -, -, hheader, -, -, -, hbody, -⟩ :=
    created_and_read canReply_ofApp_nil rfl rfl rfl rfl hsite []
      (show (newAuthor "Ann").method = "POST" from rfl) (by decide +kernel) rfl hstatus
      (Negotiation.not_isErrorText htext)
  exact ⟨site, _, _, location, hsite, rfl, hstatus, hheader, hbody⟩

end Library

end Hypermedia
