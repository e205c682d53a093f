import Hypermedia.Proofs.Session.Drafts

/-!
# Cells of drafts

What is written to the row of a record is what the record was given, and the numbers of the
records that it refers to (`Catalog.Writes`). Such cells fit a sound database
(`Catalog.Sound.fits_of_writes`).
-/

namespace Hypermedia

namespace Catalog

/-- A column that refers to another record may get nothing or the number of a row. -/
def Refers (db : Database) (m : Model) (name : String) (v : Value) : Prop :=
  ∃ x table, m.column? name = some x ∧ x.column.refersTo = some (table, "id") ∧
    (v = .null ∨ ∃ k, v = .int k ∧ (db.row? table k).isSome = true)

/-- What may be written to a column of the row of a record of the model. -/
def Writes (db : Database) (m : Model) (cell : String × Value) : Prop :=
  Accepts m cell.1 cell.2 ∨ Refers db m cell.1 cell.2

variable {c : Catalog} {db : Database}

/-- A column of a model is the column of its name in the table. -/
theorem Sound.shape_eq (h : c.Sound db) (hp : c.Plain) {m : Model} (hm : m ∈ c.models) {t : Table}
    (ht : db.table m.rootTable = .ok t) {name : String} {x : MappedColumn}
    (hx : m.column? name = some x) {y : Column} (hy : y ∈ t.columns) (hname : y.name = name) :
    y.shape = x.column.shape := by
  obtain ⟨t', ht', htmem, -, hcols⟩ := h.table hp hm
  obtain rfl := Except.ok.inj (ht.symm.trans ht')
  obtain ⟨-, y', hy', hshape⟩ := hcols x (List.mem_of_find?_eq_some hx)
  have hxname : x.column.name = name := by simpa using List.find?_some hx
  have hyname : y'.name = x.column.name := congrArg Prod.fst hshape
  rw [← h.column_eq hp htmem hy' hy (by rw [hyname, hxname, hname])]
  exact hshape

/-- The three kinds of cells that are written: own ones, the kind, and references. -/
inductive CellSpec (db : Database) (m : Model) (y : Column) (v : Value) : Prop
  | own (key : y.isKey = false) (reference : y.refersTo = none)
      (kind : m.discriminator ≠ some y.name) (value : v = .null ∨ y.type.holds v = true)
  | kind (key : y.isKey = false) (reference : y.refersTo = none) (type : y.type = .string)
      (kind : m.discriminator = some y.name) (i : String) (identity : m.identity = some i)
      (value : v = .text i)
  | reference (table : String) (reference : y.refersTo = some (table, "id"))
      (value : v = .null ∨ ∃ k, v = .int k ∧ (db.row? table k).isSome = true)

theorem Sound.cellSpec (h : c.Sound db) (hp : c.Plain) {m : Model} (hm : m ∈ c.models) {t : Table}
    (ht : db.table m.rootTable = .ok t) {y : Column} (hy : y ∈ t.columns) {v : Value}
    (hw : Writes db m (y.name, v)) : CellSpec db m y v := by
  rcases hw with ⟨x, hx, ⟨hown, hv⟩ | ⟨hk, i, hi, hv⟩⟩ | ⟨x, table, hx, href, hv⟩
  all_goals
    have hshape := h.shape_eq hp hm ht hx hy rfl
    simp only [Column.shape, Prod.mk.injEq] at hshape
    obtain ⟨hname, htype, hkey, -, hrefers⟩ := hshape
  · simp only [Model.isOwn, Bool.not_eq_true', Bool.or_eq_false_iff, beq_eq_false_iff_ne,
      Option.isSome_eq_false_iff, Option.isNone_iff_eq_none] at hown
    refine .own (hkey.trans hown.1.1) (hrefers.trans hown.1.2) (hname ▸ hown.2) ?_
    rwa [htype]
  · have hkind := hp.kind m hm _ hk
    rw [hx] at hkind
    simp only [Option.any_some, Bool.and_eq_true, beq_iff_eq, Bool.not_eq_true',
      Option.isNone_iff_eq_none] at hkind
    exact .kind (hkey.trans hkind.1.2) (hrefers.trans hkind.2) (htype.trans hkind.1.1) hk i hi hv
  · exact .reference table (hrefers.trans href) hv

/-- Cells that may be written fit. -/
theorem Sound.fits_of_writes (h : c.Sound db) (hp : c.Plain) {m : Model} (hm : m ∈ c.models)
    (hb : m.isBuilt = true) {t : Table} (ht : db.table m.rootTable = .ok t) {cells : Row}
    (hw : ∀ x ∈ cells, Writes db m x) : c.Fits db t cells := by
  obtain ⟨htmem, htname⟩ := Database.table_mem ht
  have hspec : ∀ y ∈ t.columns, y.name ∈ Row.names cells →
      CellSpec db m y (Row.get cells y.name) := fun y hy hmem =>
    h.cellSpec hp hm ht hy (hw _ (Row.get_mem hmem))
  refine ⟨fun hid => ?_, fun y hy hmem => ?_, fun y hy r hr hmem => ?_, ?_⟩
  · have hkeys : t.keyColumns = ["id"] := hp.key t.emptied (h.emptied_mem htmem)
    have hid' : "id" ∈ t.keyColumns := by simp [hkeys]
    obtain ⟨y, hy, hname⟩ := List.mem_map.1 hid'
    obtain ⟨hy, hykey⟩ := List.mem_filter.1 hy
    cases hspec y hy (hname ▸ hid) with
    | own hkey => simp [hkey] at hykey
    | kind hkey => simp [hkey] at hykey
    | reference table href =>
      have hkey := (hp.reference t.emptied (h.emptied_mem htmem) y hy _ href).2.2
      simp [hkey] at hykey
  · cases hspec y hy hmem with
    | own _ _ _ hv => exact hv
    | kind _ _ htype _ i _ hv => exact Or.inr (by rw [hv, htype]; rfl)
    | reference table href hv =>
      rcases hv with hv | ⟨k, hv, -⟩
      · exact Or.inl hv
      · have htype := (hp.reference t.emptied (h.emptied_mem htmem) y hy _ href).2.1
        exact Or.inr (by rw [hv, htype]; rfl)
  · cases hspec y hy hmem with
    | own _ href => simp [href] at hr
    | kind _ href => simp [href] at hr
    | reference table href hv =>
      obtain rfl := Option.some.inj (href.symm.trans hr)
      exact hv
  · intro n hn hroot k hk hmem
    have hsame : n.discriminator = m.discriminator :=
      hp.sameKind n hn m hm (hroot.trans htname)
    have hcols := (h.table hp hm)
    obtain ⟨t', ht', -, -, hcols⟩ := hcols
    obtain rfl := Except.ok.inj (ht.symm.trans ht')
    obtain ⟨y, hy, rfl, -, href, -⟩ := hp.kind_column hm (hsame ▸ hk) hcols
    cases hspec y hy hmem with
    | own _ _ hne => exact absurd (hsame ▸ hk) hne
    | kind _ _ _ _ i hi hv => exact ⟨m, hm, htname.symm, hb, i, hi, hv⟩
    | reference table href' => simp [href] at href'

/-! ## Which model a row has -/

theorem modelOfRow_congr {m : Model} {r r' : Row}
    (h : ∀ k ∈ m.discriminator, Row.get r k = Row.get r' k) :
    c.modelOfRow m r = c.modelOfRow m r' := by
  unfold modelOfRow
  cases hk : m.discriminator with
  | none => rfl
  | some k => simp only [h k hk]

/-- A row of a model has its identity. -/
theorem kind_of_modelOfRow {m : Model} {r : Row} {k i : String} (hk : m.discriminator = some k)
    (hi : m.identity = some i) (hr : c.modelOfRow m r = .ok m) : Row.get r k = .text i := by
  simp only [modelOfRow, hk] at hr
  split at hr
  · next x hx =>
    cases hr
    have hfound := List.find?_some hx
    rw [hi] at hfound
    simp only [Bool.and_eq_true] at hfound
    exact Value.text_beq_eq hfound.2
  · cases hr

/-- Every row stays a row of the same model. -/
def Grows (c : Catalog) (db db' : Database) : Prop :=
  ∀ name k r, db.row? name k = some r → ∃ r', db'.row? name k = some r' ∧
    ∀ m ∈ c.models, m.rootTable = name → c.modelOfRow m r' = c.modelOfRow m r

theorem Grows.isSome {db' : Database} (h : c.Grows db db') {name : String} {k : Int}
    (hrow : (db.row? name k).isSome = true) : (db'.row? name k).isSome = true := by
  obtain ⟨r, hr⟩ := Option.isSome_iff_exists.1 hrow
  obtain ⟨r', hr', -⟩ := h name k r hr
  simp [hr']

theorem Writes.mono {db' : Database} (h : c.Grows db db') {m : Model} {cell : String × Value}
    (hw : Writes db m cell) : Writes db' m cell :=
  hw.imp id fun ⟨x, table, hx, href, hv⟩ =>
    ⟨x, table, hx, href, hv.imp id fun ⟨k, hk, hrow⟩ => ⟨k, hk, h.isSome hrow⟩⟩

/-- The kind of a record of a discriminated model is its identity wherever it is written. -/
theorem Sound.kind_of_writes (h : c.Sound db) (hp : c.Plain) {m : Model} (hm : m ∈ c.models)
    {cells : Row} (hw : ∀ x ∈ cells, Writes db m x) {k : String} (hk : m.discriminator = some k)
    (hmem : k ∈ Row.names cells) : ∃ i, m.identity = some i ∧ Row.get cells k = .text i := by
  obtain ⟨t, ht, -, -, hcols⟩ := h.table hp hm
  obtain ⟨y, hy, rfl, -, href, -⟩ := hp.kind_column hm hk hcols
  cases h.cellSpec hp hm ht hy (hw _ (Row.get_mem hmem)) with
  | own _ _ hne => exact absurd hk hne
  | kind _ _ _ _ i hi hv => exact ⟨i, hi, hv⟩
  | reference table href' => simp [href] at href'

end Catalog

end Hypermedia
