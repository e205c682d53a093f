import Hypermedia.Proofs.Relational.Rows
import Hypermedia.Session.Saving

/-!
# Plain catalogs

A catalog is plain if each of its models is kept in one table under a number, with columns
whose values every answer can show, and if its links are columns that refer to the number of
another record, seen from either side; no record is deleted along with another
(`Catalog.Plain`). All conditions are about the declarations alone and can be computed.
-/

namespace Hypermedia

/-! ## Values in columns -/

namespace ColumnType

/-- The types of columns whose values every answer can show. -/
def isSimple : ColumnType → Bool
  | .integer | .string | .boolean | .date => true
  | _ => false

/-- The values that the store has in a simple column, apart from nothing. -/
def keeps : ColumnType → Value → Bool
  | .integer, .int n => decide (-storeIntegerBound ≤ n ∧ n < storeIntegerBound)
  | .string, .text _ | .boolean, .bool _ | .date, .date _ => true
  | _, _ => false

/-- What an integer column keeps is the number that it equals. -/
theorem eq_int_of_keeps {v : Value} {k : Int}
    (h : (ColumnType.integer.keeps v && v == .int k) = true) : v = .int k := by
  obtain ⟨hkeeps, heq⟩ := Bool.and_eq_true_iff.1 h
  cases v <;> simp only [keeps, Bool.false_eq_true] at hkeeps
  rw [of_decide_eq_true ((Value.int_beq _ _).symm.trans heq)]

variable {type : ColumnType}

theorem store_null (h : type.isSimple = true) : type.store .null = .ok .null := by
  cases type <;> simp_all [isSimple, store]

theorem storeInteger_eq_ok {n : Int} {w : Value} (h : storeInteger n = .ok w) :
    w = .int n ∧ -storeIntegerBound ≤ n ∧ n < storeIntegerBound := by
  unfold storeInteger at h
  split at h
  · next hr =>
    cases h
    exact ⟨rfl, hr⟩
  · cases h

/-- What is stored of a value of the type of a simple column is kept in it. -/
theorem keeps_of_store (h : type.isSimple = true) {v w : Value} (hv : type.holds v = true)
    (hs : type.store v = .ok w) : type.keeps w = true := by
  have hinteger : ∀ n : Int, storeInteger n = .ok w → ColumnType.integer.keeps w = true := by
    intro n hn
    obtain ⟨rfl, hr⟩ := storeInteger_eq_ok hn
    simpa [keeps] using hr
  cases type <;> simp only [isSimple, Bool.false_eq_true] at h
  case integer =>
    cases v <;> simp only [holds, Bool.false_eq_true] at hv
    case int n => exact hinteger n hs
    case bool b => cases b <;> (cases hs; rfl)
  case string =>
    cases v <;> simp only [holds, Bool.false_eq_true] at hv
    case text => cases hs; rfl
    case torn => cases hs
  case boolean =>
    cases v <;> simp only [holds, Bool.false_eq_true] at hv
    case bool => cases hs; rfl
  case date =>
    cases v <;> simp only [holds, Bool.false_eq_true] at hv
    all_goals cases hs; rfl

theorem store_int {n : Int} {w : Value} (hs : ColumnType.integer.store (.int n) = .ok w) :
    w = .int n :=
  (storeInteger_eq_ok hs).1

variable {hasRoom : Nat → Bool}

/-- A text is read as a date, a time or an instant. -/
theorem convert_text (s : String) :
    date.convert hasRoom (.text s) = (Conversion.isoOutcome s (Iso.date s)).map .date ∧
    time.convert hasRoom (.text s) = (Conversion.isoOutcome s (Iso.time s)).map .time ∧
    dateTime.convert hasRoom (.text s) =
      (Conversion.isoOutcome s (Iso.dateTime s)).map .dateTime :=
  ⟨rfl, rfl, rfl⟩

theorem holds_of_convert {v w : Value} (h : type.convert hasRoom v = .ok w) :
    type.holds w = true := by
  cases type
  case json | custom => rfl
  case boolean => cases h; rfl
  case date | dateTime | time =>
    obtain ⟨s, -, h⟩ := bind_eq_ok.1 h
    obtain ⟨x, -, rfl⟩ := map_eq_ok.1 h
    rfl
  all_goals
    obtain ⟨x, -, rfl⟩ := map_eq_ok.1 h
    rfl

/-- What is made of a value for a column is nothing or has the type of the column. -/
theorem holds_of_parse {name : String} {v w : Value} (h : type.parse hasRoom name v = .ok w) :
    w = .null ∨ type.holds w = true := by
  unfold parse at h
  split at h
  · next hv =>
    cases h
    cases v <;> simp_all [Value.isNull]
  · split at h
    · cases h
    · cases h
    · exact Or.inr (holds_of_convert h)

end ColumnType

/-! ## Plain catalogs -/

/-- What a row and a model have to agree about. -/
def Column.shape (x : Column) : String × ColumnType × Bool × Bool × Option (String × String) :=
  (x.name, x.type, x.isKey, x.isNullable, x.refersTo)

namespace Model

/-- Is a column one that clients may give something to? Keys, references and the
discriminator are not. -/
def isOwn (m : Model) (x : Column) : Bool :=
  !(x.isKey || x.refersTo.isSome || m.discriminator == some x.name)

/-- Are there records of the model itself? A model whose table others share has none. -/
def isBuilt (m : Model) : Bool := m.discriminator.isNone || m.isSingle

/-- Does a column of the model refer to the records of a table? -/
def refers (m : Model) (column table : String) : Bool :=
  (m.column? column).any fun x => x.column.refersTo == some (table, "id")

end Model

namespace Catalog

/-- Is the model the only one in its table? -/
def isAlone (c : Catalog) (m : Model) : Bool :=
  m.discriminator.isNone && c.models.all fun n => n.rootTable != m.rootTable || n.name == m.name

/-- Is a link of a model kept in a column, and does its inverse lead back? -/
def isPlainLink (c : Catalog) (m : Model) (l : Link) : Bool :=
  !l.cascades && !l.owns && (c.model? l.target).any fun t =>
    c.isAlone t &&
      (match l.kind with
      | .reference column => !l.isList && m.refers column t.rootTable
      | .members column => l.isList && t.refers column m.rootTable
      | .pairs _ _ _ => false) &&
      ((l.inverse.bind t.link?).all fun back => back.target == m.name)

/-- The models are kept in one table each and linked by columns. -/
structure Plain (c : Catalog) : Prop where
  model_names : (c.models.map Model.name).Nodup
  table_names : (c.tables.map Table.name).Nodup
  column_names : ∀ t ∈ c.tables, t.names.Nodup
  key : ∀ t ∈ c.tables, t.keyColumns = ["id"]
  numbered : ∀ t ∈ c.tables, t.numbered? = some "id"
  simple : ∀ t ∈ c.tables, ∀ x ∈ t.columns, x.type.isSimple = true
  storeDefault : ∀ t ∈ c.tables, ∀ x ∈ t.columns, x.storeDefault.isNone = true
  reference : ∀ t ∈ c.tables, ∀ x ∈ t.columns, ∀ y ∈ x.refersTo,
    y.2 = "id" ∧ x.type = .integer ∧ x.isKey = false
  /-- Who refers to the records of a model can be read from its side. -/
  members : ∀ t ∈ c.tables, ∀ x ∈ t.columns, ∀ y ∈ x.refersTo, ∀ m ∈ c.models,
    m.rootTable = y.1 → ∃ l ∈ m.links, l.kind = .members x.name ∧
      (c.model? l.target).any (fun n => n.rootTable == t.name) = true
  tables_eq : ∀ m ∈ c.models, m.tables = [m.rootTable]
  ordered : ∀ m ∈ c.models, m.rootTable ∈ c.rootTables
  keyNames : ∀ m ∈ c.models, m.keyNames = ["id"]
  keyTypes : ∀ m ∈ c.models, m.keyColumns.map Column.type = [.integer]
  columns : ∀ m ∈ c.models, ∀ x ∈ m.columns, x.table = m.rootTable
  own_names : ∀ m ∈ c.models, (m.columns.map fun x => x.column.name).Nodup
  shapes : ∀ m ∈ c.models, ∃ t ∈ c.tables, t.name = m.rootTable ∧
    (m.columns.all fun x => t.columns.any fun y => y.shape == x.column.shape) = true
  default : ∀ m ∈ c.models, ∀ x ∈ m.columns, ∀ v ∈ x.column.default,
    m.isOwn x.column = true ∧ x.column.type.holds v = true
  sameKind : ∀ m ∈ c.models, ∀ n ∈ c.models, m.rootTable = n.rootTable →
    m.discriminator = n.discriminator
  kind : ∀ m ∈ c.models, ∀ k ∈ m.discriminator,
    ((m.column? k).any fun x => x.column.type == .string && !x.column.isKey &&
      x.column.refersTo.isNone) = true
  identity : ∀ m ∈ c.models, m.isBuilt = true → m.discriminator.isSome = true →
    m.identity.isSome = true ∧ (c.models.find? fun x =>
      x.rootTable == m.rootTable && x.identity == m.identity).map Model.name = some m.name
  /-- A row that is one of a model has a model that extends it. -/
  kinds : ∀ m ∈ c.models, ∀ n ∈ c.models, n.rootTable = m.rootTable →
    (m.isSingle && m.discriminator.isSome) = false ∨
      (∃ x ∈ c.descendants m.name, x.identity = n.identity) → n.extends_ m.name = true
  link_names : ∀ m ∈ c.models, (m.links.map Link.name).Nodup
  link : ∀ m ∈ c.models, ∀ l ∈ m.links, c.isPlainLink m l = true

theorem isAlone_eq {c : Catalog} {m n : Model} (h : c.isAlone m = true) (hn : n ∈ c.models)
    (hroot : n.rootTable = m.rootTable) : n.name = m.name := by
  simp only [isAlone, Bool.and_eq_true, List.all_eq_true, Bool.or_eq_true, bne_iff_ne,
    beq_iff_eq] at h
  exact (h.2 n hn).resolve_left fun hne => hne hroot

/-- How a link of a plain catalog is kept. -/
structure LinkSpec (c : Catalog) (m : Model) (l : Link) (t : Model) : Prop where
  cascades : l.cascades = false
  owns : l.owns = false
  alone : c.isAlone t = true
  reference : ∀ column, l.kind = .reference column →
    l.isList = false ∧ m.refers column t.rootTable = true
  members : ∀ column, l.kind = .members column →
    l.isList = true ∧ t.refers column m.rootTable = true
  pairs : ∀ table own other, l.kind ≠ .pairs table own other
  inverse : ∀ back, l.inverse.bind t.link? = some back → back.target = m.name

theorem Plain.linkSpec {c : Catalog} (hp : c.Plain) {m : Model} (hm : m ∈ c.models) {l : Link}
    (hl : l ∈ m.links) : ∃ t, c.model? l.target = some t ∧ c.LinkSpec m l t := by
  have h := hp.link m hm l hl
  simp only [isPlainLink, Bool.and_eq_true, Bool.not_eq_true', Option.any_eq_true,
    Option.all_eq_true, beq_iff_eq] at h
  obtain ⟨⟨hcascades, howns⟩, t, ht, ⟨halone, hkind⟩, hinverse⟩ := h
  refine ⟨t, ht, hcascades, howns, halone, ?_, ?_, ?_, hinverse⟩
  · intro column hc
    simpa [hc] using hkind
  · intro column hc
    simpa [hc] using hkind
  · intro table own other hc
    simp [hc] at hkind

/-- What a column of a model refers to is a number. -/
theorem Plain.reference_type {c : Catalog} (hp : c.Plain) {m : Model} (hm : m ∈ c.models)
    {name : String} {x : MappedColumn} (hx : m.column? name = some x) {y : String × String}
    (hy : x.column.refersTo = some y) : x.column.type = .integer := by
  obtain ⟨t, ht, -, hshapes⟩ := hp.shapes m hm
  obtain ⟨z, hz, hshape⟩ :=
    List.any_eq_true.1 (List.all_eq_true.1 hshapes x (List.mem_of_find?_eq_some hx))
  simp only [Column.shape, beq_iff_eq, Prod.mk.injEq] at hshape
  obtain ⟨-, htype, -, -, hrefers⟩ := hshape
  exact htype ▸ (hp.reference t ht z hz y (hrefers.trans hy)).2.1

end Catalog

end Hypermedia
