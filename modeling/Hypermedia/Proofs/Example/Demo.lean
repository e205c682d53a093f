import Hypermedia.Example.Demo
import Hypermedia.Proofs.Api.Guarding
import Hypermedia.Proofs.Graph.Exposing

/-!
# Addresses in the library to look around in

The addresses for mail of all authors are checked when they are created and when they are changed,
also those of authors that are described within other payloads, however deep. So in every state
that requests lead to from the database at the beginning, they are empty or have an at sign
(`Demo.isAddress_email`).

An author who is given no address gets the empty one, which the rule was never asked about.
-/

namespace Hypermedia.Demo

/-! ## The declarations -/

theorem plain : catalog.Plain where
  model_names := by decide
  table_names := by decide
  column_names := by decide
  key := by decide
  numbered := by decide
  simple := by decide
  storeDefault := by decide
  reference := by decide
  members := by decide
  tables_eq := by decide
  ordered := by decide
  keyNames := by decide
  keyTypes := by decide
  columns := by decide
  own_names := by decide
  shapes := by decide
  default := by decide
  sameKind := by decide
  kind := by decide
  identity := by decide
  kinds := by decide
  link_names := by decide
  link := by decide

theorem discriminator_eq_none : ∀ m ∈ catalog.models, m.discriminator = none := by decide

theorem exposed {reg : Registry} (h : registry = .ok reg) : catalog.Exposed reg rules := by
  have hcheck : (registry.toOption.map fun reg => catalog.isExposed reg rules) = some true := by
    decide
  rw [h] at hcheck
  exact Catalog.exposed_of_isExposed plain (Option.some.inj hcheck)

/-! ## The rule -/

/-- Is a value nothing, or a text that is empty or has an at sign? -/
def isAddress : Value → Bool
  | .null => true
  | .text s => s.isEmpty || s.toList.contains '@'
  | _ => false

theorem addressVerdict_eq (s : String) : addressVerdict s =
    if isAddress (.text s) then .ok .null
    else .ok (.object [("email", .text s!"Invalid email address {s}")]) := rfl

theorem ofVerdict_email {message : String} (h : message ≠ "") :
    Errors.ofVerdict (.object [("email", .text message)]) = .ok [("email", [message])] := by
  have hkept : [("email", Value.text message)].filter (fun f => f.2.truthy) =
      [("email", .text message)] := by
    simp [Value.truthy, h]
  change List.mapM _ ([("email", Value.text message)].filter fun f => f.2.truthy) = _
  rw [hkept]
  rfl

theorem message_ne_empty (s : String) : s!"Invalid email address {s}" ≠ "" := by
  intro h
  have hprefix : toString "Invalid email address " = "" := (String.append_eq_empty_iff.1 h).1
  exact absurd hprefix (by decide)

theorem addressVerdict_errors {s : String} {es : Errors}
    (h : (addressVerdict s >>= Errors.ofVerdict) = .ok es) :
    (es = [] → isAddress (.text s) = true) ∧ ∀ f ∈ es, f.1 = "email" := by
  rw [addressVerdict_eq] at h
  cases haddress : isAddress (.text s) with
  | true =>
    rw [haddress, if_pos rfl] at h
    obtain rfl := Except.ok.inj h
    exact ⟨fun _ => rfl, List.forall_mem_nil _⟩
  | false =>
    rw [haddress] at h
    obtain rfl := Except.ok.inj ((ofVerdict_email (message_ne_empty s)).symm.trans h)
    exact ⟨fun hnil => (List.cons_ne_nil _ _ hnil).elim, by simp⟩

/-- The rule says nothing about addresses, and something about the field of its name otherwise. -/
theorem validEmail_errors {v : Value} {es : Errors}
    (h : (validEmail.verdict v >>= Errors.ofVerdict) = .ok es) :
    (es = [] → ∀ s, v = .text s → isAddress v = true) ∧ ∀ f ∈ es, f.1 = "email" := by
  cases v with
  | text s =>
    obtain ⟨haddress, hfield⟩ := addressVerdict_errors h
    exact ⟨fun hnil _ _ => haddress hnil, hfield⟩
  | torn t => exact ⟨nofun, (addressVerdict_errors h).2⟩
  | _ =>
    obtain rfl := Except.ok.inj h
    exact ⟨nofun, List.forall_mem_nil _⟩

theorem eq_validEmail {name : String} {rule : Rule} (h : rules.get name = .ok rule) :
    rule = validEmail := by
  unfold RuleBook.get at h
  split at h
  · next r hr =>
    obtain ⟨f, hfind, rfl⟩ := Option.map_eq_some_iff.1 hr
    obtain rfl : f = ("valid_email", validEmail) := by
      simpa [rules] using List.mem_of_find?_eq_some hfind
    exact (Except.ok.inj h).symm
  · cases h

/-- The rule is heard: records are given to others as books and as authors, not as addresses. -/
theorem isHeard {reg : Registry} (h : registry = .ok reg) : reg.IsHeard rules := by
  have hcheck : (registry.toOption.map fun reg => reg.types.all fun t =>
      t.relationships.all fun rel => rel.inverse != some "email") = some true := by
    decide
  rw [h] at hcheck
  intro _ _ v _ _ rule hrule w es hes f hf owner howner rel hrel
  obtain rfl := eq_validEmail hrule
  rw [(validEmail_errors hes).2 f hf]
  simpa using List.all_eq_true.1 (List.all_eq_true.1 (Option.some.inj hcheck) owner howner) rel hrel

/-- Where the type of an author passes its rules, the address is one or no text. -/
theorem isAddress_of_passes {reg : Registry} (h : registry = .ok reg) {row : Row} {m : Model}
    {t : ResourceType} (htype : catalog.RowHasType reg "Authors" row m t) {y : Context}
    (hy : y = .create ∨ y = .update) {given : String → Value} (hpass : t.Passes rules y given)
    (s : String) (hs : given "email" = .text s) : isAddress (given "email") = true := by
  have hcheck : (registry.toOption.map fun reg => catalog.models.all fun m =>
      m.rootTable != "Authors" || (reg.typeOf? m.recordClass).all fun t =>
        t.validators.any fun v => v.applies .create && v.applies .update) = some true := by
    decide
  rw [h] at hcheck
  have hmodel := List.all_eq_true.1 (Option.some.inj hcheck) m htype.mem
  simp only [htype.table, bne_self_eq_false, Bool.false_or, htype.type, Option.all_some,
    List.any_eq_true, Bool.and_eq_true] at hmodel
  obtain ⟨v, hv, happlies⟩ := hmodel
  obtain ⟨rule, hrule, hsilent⟩ := hpass v (List.mem_filter.2 ⟨hv, by
    rcases hy with rfl | rfl
    · exact happlies.1
    · exact happlies.2⟩)
  obtain rfl := eq_validEmail hrule
  exact (validEmail_errors hsilent).1 rfl s hs

/-- Authors have a column of texts for the address, which is empty by default. -/
theorem exists_emailColumn {reg : Registry} {row : Row} {m : Model} {t : ResourceType}
    (h : catalog.RowHasType reg "Authors" row m t) : ∃ x, m.column? "email" = some x ∧
      x.column.type = .string ∧ x.column.refersTo = none ∧
        x.column.default = some (.text "") := by
  have hcheck : ∀ m ∈ catalog.models, m.rootTable = "Authors" →
      ((m.column? "email").any fun x => x.column.type == .string && x.column.refersTo.isNone &&
        x.column.default.any (Value.text "" == ·)) = true := by
    decide
  exact Catalog.exists_textColumn (hcheck m h.mem h.table)

/-- A row of an author that the rules for changes allow has an address or no text. -/
theorem isAddress_of_allows {reg : Registry} (h : registry = .ok reg) {row : Row}
    (hallows : catalog.Allows reg rules .update "Authors" row) (s : String)
    (hs : Row.get row "email" = .text s) : isAddress (Row.get row "email") = true := by
  obtain ⟨m, t, htype, hpass⟩ := hallows
  exact isAddress_of_passes h htype (Or.inr rfl) hpass s hs

/-- What a row of a new author begins with is the address that it was given, or the empty one. -/
theorem isAddress_of_allowsNew {reg : Registry} (h : registry = .ok reg) {row : Row}
    (hallows : catalog.AllowsNew reg rules "Authors" row) (s : String)
    (hs : Row.get row "email" = .text s) : isAddress (Row.get row "email") = true := by
  obtain ⟨m, t, given, htype, hpass, hbegins⟩ := hallows
  obtain ⟨x, hx, hxtype, hto, hdefault⟩ := exists_emailColumn htype
  have hbegins := hbegins "email" x hx hto
  cases hnull : (given "email").isNull with
  | false =>
    rw [(hbegins.given hnull).text hxtype] at hs ⊢
    exact isAddress_of_passes h htype (Or.inl rfl) hpass s hs
  | true =>
    rw [(hbegins.default hnull (by simp [hxtype]) _ hdefault).text hxtype]
    rfl

/-! ## The site -/

variable {host : String} {detail : Detail} {site : Site}

theorem site_eq_ok (h : Demo.site host detail = .ok site) :
    site.Heeds ∧ site.catalog = catalog ∧ registry = .ok site.service.registry ∧
      site.service.rules = rules := by
  simp only [Demo.site, bind_eq_ok] at h
  obtain ⟨reg, hreg, hserve⟩ := h
  obtain ⟨hheeds, hcatalog, rfl, hrules⟩ :=
    Site.Heeds.of_serve hserve plain (exposed hreg) (isHeard hreg)
  exact ⟨hheeds, hcatalog, hreg, hrules⟩

/-! ## The database at the beginning -/

/-- There are authors under the first numbers. -/
def HasAuthors (n : Nat) (db : Database) : Prop :=
  ∀ i < n, (db.row? "Authors" (i + 1)).isSome = true

/-- Cells may be written if their columns hold them and they refer to rows that are there. -/
theorem fits_of_cells {db : Database} (hdb : catalog.Sound db) {table : String} {t : Table}
    (ht : db.table table = .ok t) {cells : Row} (hkey : "id" ∉ Row.names cells)
    (hcells : ∀ t ∈ catalog.tables, t.name = table → ∀ x ∈ t.columns, x.name ∈ Row.names cells →
      x.type.holds (Row.get cells x.name) = true ∧ ∀ y ∈ x.refersTo,
        ∃ k, Row.get cells x.name = .int k ∧ (db.row? y.1 k).isSome = true) :
    catalog.Fits db t cells := by
  obtain ⟨hmem, hname⟩ := Database.table_mem ht
  have hcells := hcells t.emptied (hdb.emptied_mem hmem) hname
  refine ⟨hkey, fun x hx hcell => Or.inr (hcells x hx hcell).1,
    fun x hx y hy hcell => Or.inr ((hcells x hx hcell).2 y hy), fun m hm _ k hk => ?_⟩
  rw [discriminator_eq_none m hm] at hk
  cases hk

theorem fits_authorRow {db : Database} (hdb : catalog.Sound db) {t : Table}
    (ht : db.table "Authors" = .ok t) (i : Nat) : catalog.Fits db t (authorRow i) := by
  have hcolumns : ∀ t ∈ catalog.tables, t.name = "Authors" → ∀ x ∈ t.columns,
      x.name ∈ ["name", "email"] → x.type = .string ∧ x.refersTo = none := by
    decide
  refine fits_of_cells hdb ht (by simp [authorRow, Row.names]) fun t ht hname x hx hcell => ?_
  obtain ⟨htype, hto⟩ := hcolumns t ht hname x hx hcell
  have hx : x.name = "name" ∨ x.name = "email" := by simpa [authorRow, Row.names] using hcell
  rw [htype, hto]
  refine ⟨?_, by simp⟩
  rcases hx with hx | hx <;> rw [hx] <;> rfl

/-- The row of a book may be written if its author is there. -/
theorem fits_bookRow {db : Database} (hdb : catalog.Sound db) {n : Nat} (hn : HasAuthors n db)
    {t : Table} (ht : db.table "Books" = .ok t) {i : Nat} (hi : i < n) (j : Nat) :
    catalog.Fits db t (bookRow i j) := by
  have hcolumns : ∀ t ∈ catalog.tables, t.name = "Books" → ∀ x ∈ t.columns,
      (x.name = "title" → x.type = .string ∧ x.refersTo = none) ∧
        (x.name = "author_id" → x.type = .integer ∧ x.refersTo = some ("Authors", "id")) := by
    decide
  refine fits_of_cells hdb ht (by simp [bookRow, Row.names]) fun t ht hname x hx hcell => ?_
  obtain ⟨htitle, hauthor⟩ := hcolumns t ht hname x hx
  have hx : x.name = "title" ∨ x.name = "author_id" := by simpa [bookRow, Row.names] using hcell
  rcases hx with hx | hx
  · rw [(htitle hx).1, (htitle hx).2, hx]
    exact ⟨rfl, by simp⟩
  · rw [(hauthor hx).1, (hauthor hx).2, hx]
    refine ⟨rfl, fun y hy => ⟨i + 1, rfl, ?_⟩⟩
    obtain rfl := Option.some.inj hy
    exact hn i hi

/-- Rows that may be written keep the database sound, and the authors that are there. -/
theorem sound_insertAll {table : String} {n : Nat} {rows : List Row}
    (hfits : ∀ row ∈ rows, ∀ db t, catalog.Sound db → HasAuthors n db →
      db.table table = .ok t → catalog.Fits db t row) :
    ∀ {db db' : Database}, catalog.Sound db → HasAuthors n db →
      insertAll table rows db = .ok db' → catalog.Sound db' ∧ HasAuthors n db' := by
  induction rows with
  | nil =>
    rintro db db' hdb hn h
    obtain rfl := Except.ok.inj h
    exact ⟨hdb, hn⟩
  | cons row rows ih =>
    intro db db' hdb hn h
    obtain ⟨_, hfirst, hrest⟩ := bind_eq_ok.1 h
    obtain ⟨⟨db₁, stored⟩, hinsert, rfl⟩ := map_eq_ok.1 hfirst
    obtain ⟨hdb₁, ⟨k, -, hnone, hrows⟩, -⟩ := hdb.insert plain hinsert fun t ht =>
      ⟨hfits row List.mem_cons_self db t hdb hn ht, fun m hm _ k hk => by
        rw [discriminator_eq_none m hm] at hk
        cases hk⟩
    refine ih (fun row hrow => hfits row (List.mem_cons_of_mem _ hrow)) hdb₁ (fun i hi => ?_) hrest
    rw [hrows]
    split
    · rfl
    · exact hn i hi

theorem sound_start {db : Database} (h : start = .ok db) : catalog.Sound db := by
  obtain ⟨db₁, hauthors, hbooks⟩ := bind_eq_ok.1 h
  have hempty : ∀ t ∈ catalog.tables, t.rows = [] := by decide
  have hfirst : catalog.Sound db₁ := by
    have hn : HasAuthors 0 catalog.tables := fun _ hi => absurd hi (Nat.not_lt_zero _)
    refine (sound_insertAll (fun row hrow db t hdb _ ht => ?_) (Catalog.sound_tables hempty) hn
      hauthors).1
    obtain ⟨i, -, rfl⟩ := List.mem_map.1 hrow
    exact fits_authorRow hdb ht i
  have hcheck : ((insertAll "Authors" ((List.range 20).map authorRow) catalog.tables).toOption.map
      fun db => decide (∀ i : Nat, i < 20 → (db.row? "Authors" (i + 1)).isSome = true)) =
        some true := by
    decide +kernel
  rw [hauthors] at hcheck
  have hn : HasAuthors 20 db₁ := fun i hi => of_decide_eq_true (Option.some.inj hcheck) i hi
  refine (sound_insertAll (fun row hrow db t hdb hn ht => ?_) hfirst hn hbooks).1
  obtain ⟨i, hi, hrow⟩ := List.mem_flatMap.1 hrow
  obtain ⟨j, -, rfl⟩ := List.mem_map.1 hrow
  exact fits_bookRow hdb hn ht (List.mem_range.1 hi) j

theorem isAddress_start {db : Database} (h : start = .ok db) :
    ∀ row ∈ db.rowsOf "Authors", isAddress (Row.get row "email") = true := by
  have hcheck : (start.toOption.map fun db => (db.rowsOf "Authors").all fun row =>
      isAddress (Row.get row "email")) = some true := by
    decide +kernel
  rw [h] at hcheck
  exact List.all_eq_true.1 (Option.some.inj hcheck)

/-! ## All requests -/

/-- In every state that requests lead to from the database at the beginning, the address of every
author is nothing, empty or has an at sign. -/
theorem isAddress_email {start : Database} (hsite : Demo.site host detail = .ok site)
    (hstart : Demo.start = .ok start) (requests : List Request) :
    ∀ row ∈ (site.respondAll start requests).1.rowsOf "Authors",
      isAddress (Row.get row "email") = true := by
  obtain ⟨hheeds, hcatalog, hreg, hrules⟩ := site_eq_ok hsite
  have hD := sound_start hstart
  obtain ⟨u, hu, hname, x, hx, hxname, hto⟩ : ∃ u ∈ catalog.tables, u.name = "Authors" ∧
      ∃ x ∈ u.columns, x.name = "email" ∧ x.refersTo = none := by decide
  have hkept := Site.column_respondAll hheeds (hcatalog ▸ hu) hx hto
    (Q := fun v => ∀ s, v = .text s → isAddress v = true)
    (fun row hallows s hs => ?added) (fun row hallows s hs => ?changed) requests (hcatalog ▸ hD)
    fun k row hrow s hs => ?first
  case added =>
    rw [hcatalog, hrules, hname] at hallows
    rw [hxname] at hs ⊢
    exact isAddress_of_allowsNew hreg hallows s hs
  case changed =>
    rw [hcatalog, hrules, hname] at hallows
    rw [hxname] at hs ⊢
    exact isAddress_of_allows hreg hallows s hs
  case first =>
    rw [hname] at hrow
    rw [hxname]
    obtain ⟨w, hw, hmem, -⟩ := hD.row?_eq_some.1 hrow
    exact isAddress_start hstart row (Database.mem_rowsOf.2 ⟨w, hw, hmem⟩)
  intro row hrow
  have hsound := hheeds.sound_respondAll requests (hcatalog ▸ hD)
  rw [hcatalog] at hsound
  rw [hname, hxname] at hkept
  obtain ⟨k, -, hfound⟩ := hsound.exists_key hrow
  have htext : Row.get row "email" = .null ∨ ∃ s, Row.get row "email" = .text s :=
    hsound.text_of_mem_rowsOf hrow (by decide)
  rcases htext with hnull | ⟨s, hs⟩
  · rw [hnull]
    rfl
  · exact hkept k row hfound s hs

/-- A request for a new book with a new author. -/
def newBookOfAuthor : Request :=
  { method := "POST", path := "/books".toList, queryNames := []
    body := (Json.object [("title", .text "Emma"),
      ("author", .object [("name", .text "Jane"), ("email", .text "jane@example.com")])]).compact }

theorem isAddress_email_jane : ∃ site start, Demo.site "127.0.0.1" .brief = .ok site ∧
    Demo.start = .ok start ∧
      ∃ row ∈ (site.respondAll start [newBookOfAuthor]).1.rowsOf "Authors",
        Row.get row "name" = .text "Jane" ∧ isAddress (Row.get row "email") = true := by
  have hcheck : ((Demo.site "127.0.0.1" .brief).toOption.bind fun site =>
      Demo.start.toOption.bind fun start => (site.computed? start newBookOfAuthor).map fun db =>
        (db.rowsOf "Authors").any fun row => Value.text "Jane" == Row.get row "name") =
          some true := by
    decide +kernel
  cases hsite : Demo.site "127.0.0.1" .brief with
  | error f =>
    rw [hsite] at hcheck
    cases hcheck
  | ok site =>
    cases hstart : Demo.start with
    | error f =>
      rw [hsite, hstart] at hcheck
      cases hcheck
    | ok start =>
      rw [hsite, hstart] at hcheck
      obtain ⟨db, hdb, hany⟩ := Option.map_eq_some_iff.1 hcheck
      obtain ⟨row, hrow, hname⟩ := List.any_eq_true.1 hany
      have hafter : (site.respondAll start [newBookOfAuthor]).1 = db :=
        Site.respond_of_computed? (by decide) hdb
      rw [← hafter] at hrow
      exact ⟨site, start, rfl, rfl, row, hrow, Value.text_beq_eq hname,
        isAddress_email hsite hstart [newBookOfAuthor] row hrow⟩

end Hypermedia.Demo
