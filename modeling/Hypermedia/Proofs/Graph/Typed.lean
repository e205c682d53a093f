import Hypermedia.Proofs.Session.Mapping
import Hypermedia.Proofs.Session.Quiet

/-!
# Entities of stored records

A registry exposes a catalog if each of its types presents the records of a model: the
properties are columns, the relationships are links, and required fields are columns that may
not be empty (`Catalog.Presents`, `Catalog.Exposed`). In a session that only reads, the entity
of a stored record then has the values of its row (`Catalog.Typed`), what it leads to are
entities of stored records again (`Act.reads_relatedMany`, `Act.reads_found`), and no required
field is blank (`Act.reads_blanks`). None of this fails.
-/

namespace Hypermedia

namespace Session

variable {s : Session}

/-- The reference is that of a stored record. -/
def Stores (s : Session) (r : Ref) : Prop := ∃ e ∈ s.entries, e.ref = r ∧ e.isStored = true

theorem Holds.stores {r : Ref} {root : String} {k : Int} (h : s.Holds r root k) : s.Stores r := by
  obtain ⟨e, he, href, hst, -⟩ := h
  exact ⟨e, he, href, hst⟩

end Session

/-- Does a row satisfy the condition of a finder? -/
def Row.satisfies (filter : Option Condition) (row : Row) : Bool :=
  filter.all fun x => x.test.holds (Row.get row x.field) x.operand matches .ok true

namespace Catalog

/-! ## Types that present models -/

/-- A type presents the records of a model: what is read of it is there, what is required is
not empty, and its rules look at texts that clients may write. -/
structure Presents (c : Catalog) (reg : Registry) (book : RuleBook) (t : ResourceType)
    (m : Model) : Prop extends c.Describes reg t m where
  concrete : m.isBuilt = true → t.isAbstract = false
  column : ∀ p ∈ t.properties, ∃ x, m.column? p.name = some x ∧
    (p.required = true → x.column.isNullable = false)
  target : ∀ rel ∈ t.relationships, ∃ t', reg.resolve rel.target = .ok t'
  required : ∀ rel ∈ t.relationships, rel.required = true → rel.isMany = false →
    ∃ l column x, m.link? rel.name = some l ∧ l.kind = .reference column ∧
      m.column? column = some x ∧ x.column.isNullable = false
  finder : ∀ f ∈ t.finders, ∃ t' name filter isReversed l, reg.resolve f.target = .ok t' ∧
    f.rule = .select (some name) filter isReversed ∧ m.link? name = some l ∧ l.isList = true ∧
      t'.model.bind c.ofClass? = c.model? l.target ∧
        ∀ x ∈ filter, (∃ n, c.model? l.target = some n ∧ ∃ y, n.column? x.field = some y) ∧
          ∀ v, ∃ b, x.test.holds v x.operand = .ok b
  rule : ∀ v ∈ t.validators, v.default = false ∧ ∃ rule x, book.get v.rule = .ok rule ∧
    m.column? rule.field = some x ∧ m.isOwn x.column = true ∧ x.column.type = .string

/-- The types of a registry present the models of a catalog. A model whose records lead to
others is the only one in its table. -/
structure Exposed (c : Catalog) (reg : Registry) (book : RuleBook) : Prop where
  presents : ∀ t ∈ reg.types, ∃ m, c.Presents reg book t m
  typeOf : ∀ m ∈ c.models, ∃ t, reg.typeOf? m.recordClass = some t ∧
    t.model.bind c.ofClass? = some m
  alone : ∀ t ∈ reg.types, t.relationships ≠ [] ∨ t.finders ≠ [] →
    ∀ m, t.model.bind c.ofClass? = some m → c.isAlone m = true

variable {c : Catalog} {D : Database} {H : Ref → Prop} {I : Session → Prop} {s t : Session}
  {reg : Registry} {book : RuleBook}

theorem Exposed.describes (hx : c.Exposed reg book) {t : ResourceType} (ht : t ∈ reg.types) :
    ∃ m, c.Describes reg t m :=
  (hx.presents t ht).imp fun _ h => h.toDescribes

/-- A type presents the model that its records have. -/
theorem Exposed.presents_of_model (hx : c.Exposed reg book) {t : ResourceType} (ht : t ∈ reg.types)
    {m : Model} (hm : t.model.bind c.ofClass? = some m) : c.Presents reg book t m := by
  obtain ⟨m', hm'⟩ := hx.presents t ht
  exact Option.some.inj (hm.symm.trans hm'.model) ▸ hm'

/-- The most specific type of the records of a model presents it. -/
theorem Exposed.presents_of_typeOf (hx : c.Exposed reg book) {m : Model} (hm : m ∈ c.models)
    {t : ResourceType} (ht : reg.typeOf? m.recordClass = some t) :
    t ∈ reg.types ∧ c.Presents reg book t m := by
  obtain ⟨t', ht', hmodel⟩ := hx.typeOf m hm
  obtain rfl := Option.some.inj (ht.symm.trans ht')
  have hmem := Registry.typeOf?_mem ht
  exact ⟨hmem, hx.presents_of_model hmem hmodel⟩

/-! ## Stored records and their rows -/

/-- The session knows the record of a row. -/
structure Known (c : Catalog) (D : Database) (s : Session) (r : Ref) (m : Model) (k : Int)
    (row : Row) : Prop where
  mem : m ∈ c.models
  name : r.model = m.name
  built : m.isBuilt = true
  holds : s.Holds r m.rootTable k
  row : D.row? m.rootTable k = some row

theorem Known.mono {r : Ref} {m : Model} {k : Int} {row : Row} (h : c.Known D s r m k row)
    (hst : s.SeenFrom t) : c.Known D t r m k row :=
  { h with holds := h.holds.mono hst }

theorem Drafts.known_of_stores (hs : c.Drafts D s) {r : Ref} (hr : s.Stores r) :
    ∃ m k row, c.Known D s r m k row := by
  obtain ⟨e, he, rfl, hst⟩ := hr
  have hdraft := hs.draft e he
  obtain ⟨k, row, hk, hrow, -⟩ := hdraft.stored hst
  exact ⟨e.model, k, row, hdraft.model, hdraft.name, hdraft.built, ⟨e, he, rfl, hst, rfl, hk⟩, hrow⟩

/-- The record under a number of the table of a model that is alone there. -/
theorem Drafts.known_of_holds (hs : c.Drafts D s) (hp : c.Plain) {m : Model} (hm : m ∈ c.models)
    (ha : c.isAlone m = true) {r : Ref} {k : Int} (hr : s.Holds r m.rootTable k) :
    ∃ row, c.Known D s r m k row := by
  have hname := hs.model_of_holds ha hr
  obtain ⟨e, he, rfl, hst, hroot, hk⟩ := hr
  have hdraft := hs.draft e he
  obtain ⟨j, row, hj, hrow, -⟩ := hdraft.stored hst
  obtain rfl : e.model = m := by
    have h := hdraft.model?_eq hp
    rw [hname, hp.model?_eq hm] at h
    exact (Option.some.inj h).symm
  obtain rfl : j = k := by simpa [hj] using hk
  exact ⟨row, hm, hname, hdraft.built, ⟨e, he, rfl, hst, rfl, hk⟩, hrow⟩

/-- A record that is known by its reference is one of the model that the reference names. -/
theorem Drafts.model_of_known? (hs : c.Drafts D s) (hp : c.Plain) {r : Ref} {e : Entry}
    (he : s.known? r = some e) {m : Model} (hm : m ∈ c.models) (hname : r.model = m.name) :
    e.model = m := by
  obtain ⟨hmem, href⟩ := Session.known?_mem he
  have hsome := (hs.draft e hmem).model?_eq hp
  rw [href, hname, hp.model?_eq hm] at hsome
  exact (Option.some.inj hsome).symm

/-- In a session that only reads, a stored record is what its row says. -/
theorem Quiet.known? (hs : c.Quiet D s) (hp : c.Plain) {r : Ref} {m : Model} {k : Int} {row : Row}
    (h : c.Known D s r m k row) : ∃ e, s.known? r = some e ∧ c.Clean D s e ∧ e.model = m ∧
      e.key = [.int k] ∧ ∀ name, e.cell D name = Row.get row name := by
  obtain ⟨e, he, rfl, hst, -, hk⟩ := h.holds
  have hmodel : e.model = m := by
    have hsome := (hs.draft e he).model?_eq hp
    rw [h.name, hp.model?_eq h.mem] at hsome
    exact (Option.some.inj hsome).symm
  have hclean : c.Clean D s e := by
    rcases hs.clean e he with hfresh | hclean
    · simp [Entry.isStored, hfresh] at hst
    · exact hclean
  refine ⟨e, hs.known?_eq he, hclean, hmodel, hk, fun name => ?_⟩
  simp [Entry.cell, Entry.given?, hclean.values, Fields.get?, Entry.row?_eq_some hk, hmodel, h.row]

/-- A column that may not be empty has something in every row. -/
theorem Known.ne_null (hp : c.Plain) (hD : c.Sound D) {r : Ref} {m : Model} {k : Int} {row : Row}
    (h : c.Known D s r m k row) {name : String} {x : MappedColumn}
    (hx : m.column? name = some x) (hnull : x.column.isNullable = false) :
    Row.get row name ≠ .null := by
  rcases (hD.cell hp h.mem h.row hx).2 with ⟨-, h⟩ | hkeeps
  · rw [hnull] at h
    cases h
  · rintro hcell
    rw [hcell] at hkeeps
    cases hx : x.column.type <;> simp [hx, ColumnType.keeps] at hkeeps

/-- The session knows the record of a row, whatever its number is. -/
def KnownRow (c : Catalog) (D : Database) (s : Session) (r : Ref) (m : Model) (row : Row) : Prop :=
  ∃ k, Row.get row "id" = .int k ∧ c.Known D s r m k row

/-- Rows that a link leads to are rows of the target. -/
theorem Sound.row?_of_mem_linkedRows (hD : c.Sound D) {l : Link} {n : Model} {key : Value}
    {cell : String → Value} {row : Row} (h : row ∈ D.linkedRows l n key cell) {k : Int}
    (hk : Row.get row "id" = .int k) : D.row? n.rootTable k = some row := by
  unfold Database.linkedRows at h
  split at h
  · split at h
    · next j _ =>
      have hrow := Option.mem_toList.1 h
      obtain ⟨-, -, -, hid⟩ := hD.row?_eq_some.1 hrow
      exact Value.int.inj (hid.symm.trans hk) ▸ hrow
    · cases h
  · obtain ⟨t, ht, hmem⟩ :=
      Database.mem_rowsOf.1 (List.mem_filter.1 (Model.mem_inKeyOrder.1 h)).1
    exact hD.row?_eq_some.2 ⟨t, ht, hmem, hk⟩
  · cases h

/-- The rows that a link of the row of a model leads to. -/
def rowsAt (c : Catalog) (D : Database) (m : Model) (k : Int) (row : Row) (name : String) :
    List Row :=
  ((m.link? name).bind fun l => (c.model? l.target).map fun n =>
    D.linkedRows l n (.int k) (Row.get row)).getD []

theorem rowsAt_eq {m : Model} {k : Int} {row : Row} {name : String} {l : Link}
    (hl : m.link? name = some l) {n : Model} (hn : c.model? l.target = some n) :
    c.rowsAt D m k row name = D.linkedRows l n (.int k) (Row.get row) := by
  simp [rowsAt, hl, hn]

/-- The rows that a finder finds from the row of a model. -/
def foundRows (c : Catalog) (D : Database) (m : Model) (k : Int) (row : Row) (f : Finder) :
    List Row :=
  match f.rule with
  | .select (some name) filter isReversed =>
    let rows := (c.rowsAt D m k row name).filter (Row.satisfies filter)
    if isReversed then rows.reverse else rows
  | _ => []

/-- A link leads to no more rows than there are numbers in the range of the store. -/
theorem Sound.length_rowsAt_le (hD : c.Sound D) (m : Model) (k : Int) (row : Row) (name : String) :
    ((c.rowsAt D m k row name).length : Int) ≤ storeIntegerBound := by
  have hnone : ((0 : Nat) : Int) ≤ storeIntegerBound := by decide
  have hlinked : ∀ (l : Link) (n : Model),
      ((D.linkedRows l n (.int k) (Row.get row)).length : Int) ≤ storeIntegerBound := by
    intro l n
    unfold Database.linkedRows
    split
    · split
      · rw [Option.length_toList]
        split <;> decide
      · exact hnone
    · next column _ =>
      have hfilter := List.length_filter_le (fun r => Row.get r column == .int k)
        (D.rowsOf n.rootTable)
      have hrows := hD.length_rowsOf_le n.rootTable
      rw [Model.inKeyOrder, List.length_mergeSort]
      omega
    · exact hnone
  unfold rowsAt
  cases hl : m.link? name with
  | none => exact hnone
  | some l =>
    cases hn : c.model? l.target with
    | none => simpa [hn] using hnone
    | some n => simpa [hn] using hlinked l n

/-- A finder finds no more of them. -/
theorem Sound.length_foundRows_le (hD : c.Sound D) (m : Model) (k : Int) (row : Row)
    (f : Finder) : ((c.foundRows D m k row f).length : Int) ≤ storeIntegerBound := by
  unfold foundRows
  split
  · next name filter isReversed _ =>
    have hfilter := List.length_filter_le (Row.satisfies filter) (c.rowsAt D m k row name)
    have hrows := hD.length_rowsAt_le m k row name
    dsimp only
    split
    · rw [List.length_reverse]
      omega
    · omega
  · decide

/-- The records that a link of a row leads to, those of rows of the target. -/
structure Leads (c : Catalog) (D : Database) (s : Session) (l : Link) (k : Int) (row : Row)
    (xs : List Ref) : Prop where
  known : ∃ n, c.model? l.target = some n ∧ List.Forall₂ (fun y row' => c.KnownRow D s y n row')
    xs (D.linkedRows l n (.int k) (Row.get row))
  reference : ∀ column, l.kind = .reference column → Row.get row column ≠ .null → xs ≠ []

/-- What a session that only reads has read of a link of a stored record. -/
theorem Quiet.leads (hs : c.Quiet D s) (hp : c.Plain) (hD : c.Sound D) {r : Ref} {m : Model}
    {k : Int} {row : Row} (h : c.Known D s r m k row) {l : Link} {xs : List Ref}
    (hl : s.Leads r l xs) : c.Leads D s l k row xs := by
  obtain ⟨e, he, hclean, hmodel, hkey, hcell⟩ := hs.known? hp h
  obtain ⟨e', he', hmem, before, hst⟩ := hl
  obtain rfl := Option.some.inj (he.symm.trans he')
  obtain ⟨n, hn, hspec⟩ := hp.linkSpec (hmodel ▸ h.mem) hmem
  have hlinked : c.Linked D s e l xs := by
    rcases hclean.linkState l.name with hun | ⟨ys, hread, hlinked⟩
    · rw [hst] at hun
      cases hun
    · rw [hst] at hread
      cases hread
      exact hlinked l (hp.link?_eq (hmodel ▸ h.mem) hmem)
  have hrows := hlinked n hn
  rw [Act.keyValue, hkey, funext hcell] at hrows
  refine ⟨⟨n, hn, ?_⟩, fun column hkind hne => ?_⟩
  · refine forall₂_imp_mem hrows fun y row' hmem' hholds => ?_
    obtain ⟨j, hj, hy⟩ := hholds
    obtain ⟨row'', hknown⟩ := hs.known_of_holds hp (model?_mem hn).1 hspec.alone hy
    obtain rfl := Option.some.inj ((hD.row?_of_mem_linkedRows hmem' hj).symm.trans hknown.row)
    exact ⟨j, hj, hknown⟩
  · -- What a reference refers to has a row.
    rcases (hs.draft e (Session.known?_mem he).1).reference_cell hp hD
      (hspec.reference column hkind).2 with hnull | ⟨j, hj, hrow⟩
    · exact absurd ((hcell column).symm.trans hnull) hne
    · obtain ⟨row', hrow⟩ := Option.isSome_iff_exists.1 hrow
      simp only [Database.linkedRows, hkind, (hcell column).symm.trans hj, hrow,
        Option.toList_some] at hrows
      rintro rfl
      cases hrows

/-! ## Entities of stored records -/

/-- The entity of a stored record of a session, with the most specific type. -/
structure Typed (c : Catalog) (reg : Registry) (D : Database) (s : Session) (e : Entity Ref)
    (m : Model) (k : Int) (row : Row) : Prop extends c.Known D s e.record m k row where
  type : reg.typeOf? m.recordClass = some e.type
  errors : e.payloadErrors = []

theorem Typed.mono {e : Entity Ref} {m : Model} {k : Int} {row : Row}
    (h : c.Typed reg D s e m k row) (hst : s.SeenFrom t) : c.Typed reg D t e m k row :=
  { h with toKnown := h.toKnown.mono hst }

/-- The entity of the record of a row, whatever its number is. -/
def TypedRow (c : Catalog) (reg : Registry) (D : Database) (s : Session) (m : Model)
    (e : Entity Ref) (row : Row) : Prop :=
  ∃ k, Row.get row "id" = .int k ∧ c.Typed reg D s e m k row

/-- A record as an entity has the type of its model. -/
theorem type_entity (hp : c.Plain) {r : Ref} {m : Model} (hm : m ∈ c.models)
    (hname : r.model = m.name) {t : ResourceType} (ht : reg.typeOf? m.recordClass = some t)
    (declared : ResourceType) : ((Act.entitiesOf c reg book).graph.entity r declared).type = t := by
  have hclass : (c.model? r.model).map Model.recordClass = some m.recordClass := by
    rw [hname, hp.model?_eq hm]
    rfl
  simp [ResourceGraph.entity, ResourceGraph.typeOf?, WritableGraph.graph, store, hclass, ht]

/-- A stored record as an entity. -/
theorem Known.typed (hp : c.Plain) (hx : c.Exposed reg book) {r : Ref} {m : Model} {k : Int}
    {row : Row} (h : c.Known D s r m k row) (declared : ResourceType) :
    c.Typed reg D s ((Act.entitiesOf c reg book).graph.entity r declared) m k row := by
  obtain ⟨t, ht, -⟩ := hx.typeOf m h.mem
  exact { h with type := type_entity hp h.mem h.name ht declared ▸ ht, errors := rfl }

/-- Stored records as entities. -/
theorem typedRows (hp : c.Plain) (hx : c.Exposed reg book) {n : Model} {xs : List Ref}
    {rows : List Row} (h : List.Forall₂ (fun y row => c.KnownRow D s y n row) xs rows)
    (declared : ResourceType) : List.Forall₂ (c.TypedRow reg D s n)
      (xs.map ((Act.entitiesOf c reg book).graph.entity · declared)) rows :=
  List.forall₂_map_left_iff.2
    (h.imp fun _ _ => Exists.imp fun _ hk => ⟨hk.1, hk.2.typed hp hx declared⟩)

end Catalog

/-! ## What entities lead to -/

namespace Act

variable {c : Catalog} {D : Database} {I : Session → Prop} {s : Session} {reg : Registry}
  {book : RuleBook} (hI : c.Reading D I) (hq : ∀ s, I s → c.Quiet D s) (hp : c.Plain)
  (hD : c.Sound D) (hx : c.Exposed reg book)

include hI hq hp hD

/-- A relationship of a stored record is followed without a fault. -/
theorem reads_relationship {r : Ref} {m : Model} {k : Int} {row : Row}
    (hr : c.Known D s r m k row) {t : ResourceType} (ht : c.Describes reg t m)
    {rel : Relationship} (hrel : rel ∈ t.relationships) : Reads I (related c r rel) s
      (fun u x => ∃ l xs, m.link? rel.name = some l ∧ rel.isMany = l.isList ∧
        c.Leads D u l k row xs ∧ x = l.related xs) False := by
  obtain ⟨l, hl, -, hmany, -⟩ := ht.relationship rel hrel
  intro hs
  obtain ⟨e, he, -, hmodel, -⟩ := (hq s hs).known? hp hr
  revert hs
  refine (reads_related hI hp hD r rel).imp ?_ fun h => ?_
  · rintro u x hu hsu ⟨e', l', xs, he', hl', hxs, rfl⟩
    obtain rfl := Option.some.inj (he.symm.trans he')
    obtain rfl := Option.some.inj (hl.symm.trans (hmodel ▸ hl'))
    refine ⟨l, xs, hl, hmany, (hq u hu).leads hp hD (hr.mono hsu) hxs, ?_⟩
    rw [hmany]
    unfold Link.related
    cases l.isList <;> rfl
  · obtain ⟨hmany', hlist⟩ := h e l he (hmodel ▸ hl)
    rw [hmany, hlist] at hmany'
    cases hmany'

/-- The records of a link of a stored record, for a finder to start from. -/
theorem reads_sources {r : Ref} {m : Model} {k : Int} {row : Row} (hr : c.Known D s r m k row)
    {name : String} {l : Link} (hl : m.link? name = some l) (hlist : l.isList = true) :
    Reads I (source c r name) s (fun u xs => c.Leads D u l k row xs) False := by
  intro hs
  obtain ⟨e, he, -, hmodel, -⟩ := (hq s hs).known? hp hr
  revert hs
  refine (reads_source hI hp hD r name).imp ?_ fun h => ?_
  · rintro u x hu hsu ⟨e', l', xs, he', hl', hxs, rfl⟩
    obtain rfl := Option.some.inj (he.symm.trans he')
    obtain rfl := Option.some.inj (hl.symm.trans (hmodel ▸ hl'))
    exact (hq u hu).leads hp hD (hr.mono hsu) hxs
  · rw [h e l he (hmodel ▸ hl)] at hlist
    cases hlist

/-- A finder that looks through a link finds stored records without a fault: those of the rows
that satisfy its condition. -/
theorem reads_findings {r : Ref} {m : Model} {k : Int} {row : Row} (hr : c.Known D s r m k row)
    {f : Finder} {name : String} {filter : Option Condition} {isReversed : Bool}
    (hrule : f.rule = .select (some name) filter isReversed) {l : Link}
    (hl : m.link? name = some l) (hlist : l.isList = true)
    (hfilter : ∀ x ∈ filter, (∃ n, c.model? l.target = some n ∧ ∃ y, n.column? x.field = some y) ∧
      ∀ v, ∃ b, x.test.holds v x.operand = .ok b) :
    Reads I (f.rule.find c.store.toStorage r) s (fun u xs => ∃ n, c.model? l.target = some n ∧
      List.Forall₂ (fun y row => c.KnownRow D u y n row) xs (c.foundRows D m k row f)) False := by
  rw [hrule]
  refine (reads_sources hI hq hp hD hr hl hlist).bind fun ys t _ _ hys => ?_
  obtain ⟨n, hn, hknown⟩ := hys.known
  rw [← Catalog.rowsAt_eq hl hn] at hknown
  refine (reads_filterM_forall₂ (E := False) (R := fun u y row => c.KnownRow D u y n row)
    (Row.satisfies filter) hknown (fun y row' u _ ⟨j, _, hj⟩ => ?_)
    fun _ _ _ _ hst => Exists.imp fun _ hk => ⟨hk.1, hk.2.mono hst⟩).bind
      fun zs u _ _ hzs => reads_pure fun _ => ⟨n, hn, ?_⟩
  · cases filter with
    | none => exact reads_pure fun _ => rfl
    | some x =>
      obtain ⟨⟨n', hn', z, hz⟩, htotal⟩ := hfilter x rfl
      obtain rfl := Option.some.inj (hn.symm.trans hn')
      intro hu
      obtain ⟨e, he, -, hmodel, -, hcell⟩ := (hq u hu).known? hp hj
      revert hu
      refine (reads_cell hI hp hD he (hmodel ▸ hz)).bind fun v _ _ _ h => ?_
      obtain ⟨b, hb⟩ := htotal (Row.get row' x.field)
      rw [h.2, hcell, monadOfExcept_eq, hb]
      exact reads_pure fun _ => by cases b <;> simp [Row.satisfies, hb]
  · simp only [Catalog.foundRows, hrule]
    cases isReversed with
    | false => exact hzs
    | true => exact List.forall₂_reverse_iff.2 hzs

include hx

/-- The entities that a relationship to many leads to. -/
theorem reads_relatedMany {e : Entity Ref} {m : Model} {k : Int} {row : Row}
    (he : c.Known D s e.record m k row) {t : ResourceType} (ht : c.Presents reg book t m)
    {rel : Relationship} (hrel : rel ∈ t.relationships) (hmany : rel.isMany = true) :
    Reads I ((entitiesOf c reg book).graph.relatedMany e rel) s
      (fun u x => x.base = .owner e ∧ x.name = rel.name ∧ ∃ l n, m.link? rel.name = some l ∧
        c.model? l.target = some n ∧
          List.Forall₂ (c.TypedRow reg D u n) x.entities (c.rowsAt D m k row rel.name)) False := by
  obtain ⟨t', ht'⟩ := ht.target rel hrel
  unfold ResourceGraph.relatedMany
  rw [monadOfExcept_eq, show (entitiesOf c reg book).graph.registry.resolve rel.target = .ok t' from
    ht', ofExcept_ok, pure_bind]
  refine (reads_relationship hI hq hp hD he ht.toDescribes hrel).bind ?_
  rintro x u - - ⟨l, xs, hl, hlist, hleads, rfl⟩
  rw [monadOfExcept_eq, Link.related, if_pos (hlist.symm.trans hmany)]
  obtain ⟨n, hn, hknown⟩ := hleads.known
  rw [← Catalog.rowsAt_eq hl hn] at hknown
  exact reads_pure fun _ => ⟨rfl, rfl, l, n, hl, hn, Catalog.typedRows hp hx hknown t'⟩

/-- The entity that a relationship to one leads to. -/
theorem reads_relatedOne {e : Entity Ref} {m : Model} {k : Int} {row : Row}
    (he : c.Known D s e.record m k row) {t : ResourceType} (ht : c.Presents reg book t m)
    {rel : Relationship} (hrel : rel ∈ t.relationships) (hone : rel.isMany = false) :
    Reads I ((entitiesOf c reg book).graph.relatedOne e rel) s
      (fun u x => ∃ l n, m.link? rel.name = some l ∧ c.model? l.target = some n ∧
        Option.Rel (c.TypedRow reg D u n) x (c.rowsAt D m k row rel.name).head?) False := by
  obtain ⟨t', ht'⟩ := ht.target rel hrel
  unfold ResourceGraph.relatedOne
  rw [monadOfExcept_eq, show (entitiesOf c reg book).graph.registry.resolve rel.target = .ok t' from
    ht', ofExcept_ok, pure_bind]
  refine (reads_relationship hI hq hp hD he ht.toDescribes hrel).bind ?_
  rintro x u - - ⟨l, xs, hl, hlist, hleads, rfl⟩
  obtain ⟨n, hn, hknown⟩ := hleads.known
  rw [← Catalog.rowsAt_eq hl hn] at hknown
  rw [monadOfExcept_eq, Link.related, if_neg (by rw [← hlist, hone]; simp)]
  cases xs with
  | nil =>
    rw [List.forall₂_nil_left_iff.1 hknown]
    exact reads_pure fun _ => ⟨l, n, hl, hn, .none⟩
  | cons y ys =>
    obtain ⟨row', rows, ⟨j, hid, hj⟩, -, hrows⟩ := List.forall₂_cons_left_iff.1 hknown
    rw [hrows]
    exact reads_pure fun _ => ⟨l, n, hl, hn, .some ⟨j, hid, hj.typed hp hx t'⟩⟩

/-- The entities that a finder finds. -/
theorem reads_found {e : Entity Ref} {m : Model} {k : Int} {row : Row}
    (he : c.Known D s e.record m k row) {t : ResourceType} (ht : c.Presents reg book t m)
    {f : Finder} (hf : f ∈ t.finders) : Reads I ((entitiesOf c reg book).graph.found e f) s
      (fun u x => x.base = .owner e ∧ x.name = f.name ∧ ∃ t' n, reg.resolve f.target = .ok t' ∧
        t'.model.bind c.ofClass? = some n ∧
          List.Forall₂ (c.TypedRow reg D u n) x.entities (c.foundRows D m k row f)) False := by
  obtain ⟨t', name, filter, isReversed, l, ht', hrule, hl, hlist, hmodel, hfilter⟩ := ht.finder f hf
  unfold ResourceGraph.found
  rw [monadOfExcept_eq, show (entitiesOf c reg book).graph.registry.resolve f.target = .ok t' from
    ht', ofExcept_ok, pure_bind]
  refine (reads_findings hI hq hp hD he hrule hl hlist hfilter).bind ?_
  rintro xs u - - ⟨n, hn, hknown⟩
  exact reads_pure fun _ =>
    ⟨rfl, rfl, t', n, ht', hmodel.trans hn, Catalog.typedRows hp hx hknown t'⟩

end Act

end Hypermedia
