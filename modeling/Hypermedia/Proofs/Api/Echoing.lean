import Hypermedia.Proofs.Api.Creating
import Hypermedia.Proofs.Api.Retrieving
import Hypermedia.Proofs.Calendar.Dates
import Hypermedia.Proofs.Text.Plain

/-!
# New records are read as they were answered

A site echoes what it is given if every model that is built fills its table, no address needs an
escape, and clients may read what they may write (`Site.Echoes`). Then the address that the
answer with a new record tells leads to the very same answer, and what the payload gives to a
column that keeps it (`ColumnType.Echoes`) is shown there as it was given
(`Site.read_of_creates`).
-/

namespace Hypermedia

/-- A column of the type keeps the value, and shows it as it was given. -/
inductive ColumnType.Echoes : ColumnType → Value → Prop
  | text (s : String) : Echoes .string (.text s)
  | bool (b : Bool) : Echoes .boolean (.bool b)
  | date (d : Date) : Echoes .date (.text d.text)

/-- What is given to such a column is stored, and the document of what is stored is the one that
was given. -/
theorem ColumnType.Echoes.exists_store {type : ColumnType} {v : Value} (h : type.Echoes v)
    (hasRoom : Nat → Bool) (name : String) (detail : Detail) :
    ∃ w d, type.parse hasRoom name v = .ok w ∧ w.isNull = false ∧ type.store w = .ok w ∧
      Format.document detail w = .ok d ∧ Format.ofDocument d = v := by
  cases h with
  | text s => exact ⟨.text s, .text s, rfl, rfl, rfl, rfl, rfl⟩
  | bool b => exact ⟨.bool b, .bool b, rfl, rfl, rfl, rfl, rfl⟩
  | date d =>
    refine ⟨.date d, .text d.text, ?_, rfl, rfl, rfl, rfl⟩
    have hconvert : ColumnType.date.convert hasRoom (.text d.text) = .ok (.date d) := by
      rw [(convert_text d.text).1, Iso.date_text]
      rfl
    rw [parse, if_neg (by simp [Value.isNull, holds]), hconvert]

/-- The type of the column that a property of a type is. -/
def Catalog.columnType? (c : Catalog) (t : ResourceType) (name : String) : Option ColumnType :=
  (t.model.bind c.ofClass?).bind fun m => (m.column? name).map fun x => x.column.type

/-- New records are found at their addresses, and clients may read what they may write. -/
structure Site.Echoes (site : Site) : Prop where
  separates : site.service.Separates
  root : site.service.root = ""
  fills : ∀ m ∈ site.catalog.models, m.isBuilt = true → site.catalog.Fills m
  plural : ∀ t ∈ site.service.registry.types,
    t.pluralName ≠ "" ∧ ∀ c ∈ t.pluralName.toList, Text.isPathChar c = true
  names : ∀ t ∈ site.service.registry.types, t.fieldNames.Nodup
  readable : ∀ d ∈ site.service.registry.types, ∀ m, d.model.bind site.catalog.ofClass? = some m →
    ∀ t, site.service.registry.typeOf? m.recordClass = some t →
      ∀ p ∈ d.writableProperties, ∃ q ∈ t.readableProperties, q.name = p.name

namespace ResourceType

variable {t : ResourceType} (hname : t.pluralName ≠ "") (hslash : '/' ∉ t.pluralName.toList)
  (ht : ∀ c ∈ t.pluralName.toList, Text.isPathChar c = true) {k : Int} (hk : 0 ≤ k)
  {ext : Option String} (hext : Format.IsSuffix ext)

include ht hk hext

/-- The address of an entity needs no escapes if the plural name of its type needs none. -/
theorem isPathChar_of_mem_address {c : Char} (h : c ∈ t.address (toString k).toList ext) :
    Text.isPathChar c = true := by
  have hdigits : ∀ c ∈ (toString k).toList, Text.isPathChar c = true := by
    obtain ⟨n, rfl⟩ := Int.eq_ofNat_of_zero_le hk
    rw [toList_toString_natCast]
    exact fun c hc =>
      Text.isPathChar_of_isDigit (Nat.isDigit_of_mem_toDigits (by decide) (by decide) hc)
  have hsuffix : (Naming.formatSuffix ext).toList.all Text.isPathChar = true := by
    cases ext with
    | none => simp [Naming.formatSuffix]
    | some e => rcases hext.eq e rfl with rfl | rfl <;> decide
  have hslash : Text.isPathChar '/' = true := by decide
  simp only [address, List.mem_cons, List.mem_append] at h
  rcases h with (rfl | h) | rfl | h | h
  · exact hslash
  · exact ht c h
  · exact hslash
  · exact hdigits c h
  · exact List.all_eq_true.1 hsuffix c h

/-- The address of an entity is sent as it is. -/
theorem uriText_address : Text.uriText (String.ofList (t.address (toString k).toList ext)) =
    String.ofList (t.address (toString k).toList ext) := by
  refine Text.uriText_eq_self (by rw [String.toList_ofList, address, List.cons_append]) ?_
  rw [String.toList_ofList]
  exact fun c hc => (Text.isPathChar_iff.1 (isPathChar_of_mem_address ht hk hext hc)).1

include hname hslash

/-- The address of an entity is read as it was sent. -/
theorem path_ofAddress (method body : String) :
    (Request.ofAddress method (String.ofList (t.address (toString k).toList ext)) body).path =
      t.address (toString k).toList ext := by
  obtain ⟨a, r, har⟩ : ∃ a r, t.pluralName.toList = a :: r :=
    List.exists_cons_of_ne_nil fun h => hname (String.toList_inj.1 (by simpa using h))
  have ha : a ≠ '/' := by
    rintro rfl
    exact hslash (har ▸ List.mem_cons_self)
  have hpath : (Request.ofAddress method (String.ofList (t.address (toString k).toList ext))
      body).path = (String.ofList (t.address (toString k).toList ext)).toList :=
    Request.path_ofAddress (by rw [String.toList_ofList, address, har]; rfl) ha
    (by rw [String.toList_ofList]; exact fun c => isPathChar_of_mem_address ht hk hext)
  rwa [String.toList_ofList] at hpath

end ResourceType

theorem Negotiation.IsText.isSuffix {settings : Settings} {detail : Detail}
    {suffix : Option String} {v : Value} {body : String}
    (h : IsText settings detail suffix v body) : Format.IsSuffix suffix := by
  obtain ⟨s, f, hs, -⟩ := h
  rintro e rfl
  simp only [choose] at hs
  split at hs
  · assumption
  · cases hs

namespace Site

variable {site : Site} (h : site.Stands) (he : site.Echoes) {db : Database}
  (hdb : site.catalog.Sound db)

include h he hdb

/-- The full form of a stored record tells the address of the record and what its row has, and
whoever asks for this address gets the same text. -/
theorem read_of_fullForm {m : Model} (hm : m ∈ site.catalog.models) (hbuilt : m.isBuilt = true)
    {t : ResourceType} (ht : site.service.registry.typeOf? m.recordClass = some t) {k : Int}
    {row : Row} (hrow : db.row? m.rootTable k = some row) {suffix : Option String} {body : String}
    (hbody : Negotiation.IsText site.service.settings site.service.detail suffix
      (site.catalog.fullForm site.service.registry db (site.service.writer suffix) t m k
        row).toValue body) :
    ∃ location fields, location = String.ofList (t.address (toString k).toList suffix) ∧
      Negotiation.IsText site.service.settings site.service.detail suffix (.object fields) body ∧
      Fields.get? "uri" fields = some (.text location) ∧
      (site.respond db (.ofAddress "GET" location "")).2.status = 200 ∧
      (site.respond db (.ofAddress "GET" location "")).2.body = body ∧
      ∀ p ∈ t.readableProperties, Fields.get? p.name fields = some (Row.get row p.name) := by
  have hfills := he.fills m hm hbuilt
  obtain ⟨htmem, -⟩ := h.serves.exposed.presents_of_typeOf hm ht
  obtain ⟨hlow, -⟩ := hdb.number_range hrow
  have hsuffix := hbody.isSuffix
  obtain ⟨hname, hplain⟩ := he.plural t htmem
  have hpath := ResourceType.path_ofAddress hname (he.separates.slash t htmem) hplain
    (by omega : 0 ≤ k) hsuffix "GET" ""
  have hread := site.respond_fullForm h he.separates hdb hfills ht hrow hsuffix
    (by rw [Request.method_ofAddress]; decide) hpath
  obtain ⟨fields, hfields, hlocation, hshown⟩ :=
    (site.catalog.isFull_fullForm site.service.registry db (site.service.writer suffix) t m k
      row).exists_fields (he.names t htmem)
  rw [ResourceType.entityUri_eq, he.root, String.empty_append] at hlocation
  exact ⟨_, fields, rfl, hfields ▸ hbody, hlocation, hread.1, hread.2.unique hbody, hshown⟩

/-- Whoever asks for the address that the answer with a new record tells gets the same answer, and
in it what the payload gave to columns that keep it. -/
theorem read_of_creates {declared : ResourceType} {request : Request} {suffix : Option String}
    {r : Response} (hr : site.service.Creates site.catalog db declared request suffix r) :
    ∃ location fields,
      r.headers.filter (fun x => x.1 == "Location") = [("Location", location)] ∧
      Negotiation.IsText site.service.settings site.service.detail suffix (.object fields) r.body ∧
      Fields.get? "uri" fields = some (.text location) ∧
      (site.respond db (.ofAddress "GET" location "")).2.status = 200 ∧
      (site.respond db (.ofAddress "GET" location "")).2.body = r.body ∧
      ∀ payload, request.payload site.service.settings = .ok payload →
        ∀ p ∈ declared.writableProperties, ∀ v type, Fields.get? p.name payload = some v →
          site.catalog.columnType? declared p.name = some type → type.Echoes v →
            ∃ w d, Fields.get? p.name fields = some w ∧
              Format.document site.service.detail w = .ok d ∧ Format.ofDocument d = v := by
  obtain ⟨m, t, k, row, hdeclared, hm, hbuilt, ht, hrow, hlocates, hgives⟩ := hr
  have hmem := Act.ofClass?_mem hm.model
  obtain ⟨htmem, -⟩ := h.serves.exposed.presents_of_typeOf hmem ht
  obtain ⟨hlow, -⟩ := hdb.number_range hrow
  obtain ⟨location, fields, rfl, hbody, hlocation, hgot, hsame, hshown⟩ :=
    site.read_of_fullForm h he hdb hmem hbuilt ht hrow hlocates.body
  have hheader := hlocates.header
  rw [ResourceType.entityUri_eq, he.root, String.empty_append,
    ResourceType.uriText_address (he.plural t htmem).2 (by omega : 0 ≤ k) hbody.isSuffix] at hheader
  refine ⟨_, fields, hheader, hbody, hlocation, hgot, hsame,
    fun payload hpayload p hp v type hv htype hkept => ?_⟩
  obtain ⟨x, hx, rfl⟩ : ∃ x, m.column? p.name = some x ∧ x.column.type = type := by
    rw [Catalog.columnType?, hm.model] at htype
    exact Option.map_eq_some_iff.1 htype
  obtain ⟨w, d, hparse, hnull, hstore, hdocument, hd⟩ :=
    hkept.exists_store site.catalog.hasRoom p.name site.service.detail
  obtain ⟨q, hq, hqname⟩ := he.readable declared hdeclared m hm.model t ht p hp
  have hcell := hgives p.name w w
    ⟨payload, hpayload, ⟨p, hp, rfl⟩, v, x, hv, hx, hparse, hnull, hstore⟩
  exact ⟨w, d, by rw [← hqname, hshown q hq, hqname, hcell], hdocument, hd⟩

end Site

end Hypermedia
