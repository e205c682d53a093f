import Hypermedia.Proofs.Relational.Plain
import Mathlib.Data.List.Perm.Subperm

/-!
# Sound databases

A database of a plain catalog is sound if its tables are those of the catalog, every row has
a number of its own and cells that its columns keep, every reference leads to a row, and
every row is that of a record of a built model (`Catalog.Sound`). `Catalog.Fits` says which
cells may be written to a sound database.
-/

namespace Hypermedia

/-- A table without its rows. -/
def Table.emptied (t : Table) : Table := { t with rows := [] }

/-- What is kept of a value in a column: nothing of nothing, and texts as they are. -/
structure Column.Stores (x : Column) (v w : Value) : Prop where
  store : x.type.store v = .ok w
  null : v = .null → w = .null
  text : x.type = .string → w = v

theorem Column.Stores.of_type {x y : Column} {v w : Value} (h : y.Stores v w)
    (htype : y.type = x.type) : x.Stores v w :=
  ⟨htype ▸ h.store, h.null, htype ▸ h.text⟩

namespace Catalog

/-- A row is as the store keeps rows of the table, and what it refers to is there. -/
structure SoundRow (c : Catalog) (db : Database) (t : Table) (r : Row) : Prop where
  names : Row.names r = t.names
  key : ∃ k : Int, Row.get r "id" = .int k ∧ 1 ≤ k ∧ k < storeIntegerBound
  cell : ∀ x ∈ t.columns, Row.get r x.name = .null ∧ x.isNullable = true ∨
    x.type.keeps (Row.get r x.name) = true
  reference : ∀ x ∈ t.columns, ∀ y ∈ x.refersTo, Row.get r x.name = .null ∨
    ∃ k, Row.get r x.name = .int k ∧ (db.row? y.1 k).isSome = true
  kind : ∀ m ∈ c.models, m.rootTable = t.name →
    ∃ n ∈ c.models, c.modelOfRow m r = .ok n ∧ n.rootTable = t.name ∧ n.isBuilt = true

/-- The tables are those of the catalog, with sound rows under different numbers. -/
structure Sound (c : Catalog) (db : Database) : Prop where
  tables : db.map Table.emptied = c.tables
  row : ∀ t ∈ db, ∀ r ∈ t.rows, c.SoundRow db t r
  distinct : ∀ t ∈ db, t.rows.Pairwise fun a b => Row.get a "id" ≠ Row.get b "id"

/-- Cells that may be written to rows of a table. -/
structure Fits (c : Catalog) (db : Database) (t : Table) (cells : Row) : Prop where
  noKey : "id" ∉ Row.names cells
  value : ∀ x ∈ t.columns, x.name ∈ Row.names cells →
    Row.get cells x.name = .null ∨ x.type.holds (Row.get cells x.name) = true
  reference : ∀ x ∈ t.columns, ∀ y ∈ x.refersTo, x.name ∈ Row.names cells →
    Row.get cells x.name = .null ∨
      ∃ k, Row.get cells x.name = .int k ∧ (db.row? y.1 k).isSome = true
  kind : ∀ m ∈ c.models, m.rootTable = t.name → ∀ k ∈ m.discriminator, k ∈ Row.names cells →
    ∃ n ∈ c.models, n.rootTable = t.name ∧ n.isBuilt = true ∧
      ∃ i, n.identity = some i ∧ Row.get cells k = .text i

end Catalog

/-! ## The stored forms of cells -/

theorem Row.of_forall₂ {f : Column → Except Fault Value} {xs : List Column} {stored : Row}
    (h : List.Forall₂ (fun x c => (do let v ← f x; pure (x.name, v)) = .ok c) xs stored) :
    Row.names stored = xs.map Column.name ∧
      ((xs.map Column.name).Nodup → ∀ x ∈ xs, f x = .ok (Row.get stored x.name)) := by
  induction h with
  | nil => simp [Row.names]
  | @cons x c xs stored hx hrest ih =>
    obtain ⟨v, hv, hc⟩ := bind_eq_ok.1 hx
    obtain rfl := pure_eq_ok.1 hc
    refine ⟨by simpa [Row.names] using ih.1, fun hn y hy => ?_⟩
    simp only [List.map_cons, List.nodup_cons] at hn
    rw [Row.get_cons]
    rcases List.mem_cons.1 hy with rfl | hy
    · simpa using hv
    · have hne : x.name ≠ y.name := fun h => hn.1 (h ▸ List.mem_map_of_mem hy)
      rw [if_neg hne]
      exact ih.2 hn.2 y hy

theorem Table.storeCells_eq_ok {t : Table} (hn : t.names.Nodup) {cells stored : Row}
    (h : t.storeCells cells = .ok stored) :
    (∀ n, n ∈ Row.names stored ↔ n ∈ t.names ∧ n ∈ Row.names cells) ∧
      (Row.names stored).Nodup ∧ ∀ x ∈ t.columns, x.name ∈ Row.names cells →
        x.type.store (Row.get cells x.name) = .ok (Row.get stored x.name) := by
  have hany : ∀ x : Column, (cells.any fun c => c.1 == x.name) = true ↔
      x.name ∈ Row.names cells := by
    intro x
    simp [Row.names]
  obtain ⟨hnames, hget⟩ := Row.of_forall₂ (mapM_eq_ok.1 h)
  have hnodup : ((t.columns.filter fun x => cells.any fun c => c.1 == x.name).map
      Column.name).Nodup := hn.sublist (List.filter_sublist.map _)
  refine ⟨fun n => ?_, hnames ▸ hnodup, fun x hx hmem => ?_⟩
  · rw [hnames]
    simp only [List.mem_map, List.mem_filter, hany, Table.names]
    constructor
    · rintro ⟨x, ⟨hx, hmem⟩, rfl⟩
      exact ⟨⟨x, hx, rfl⟩, hmem⟩
    · rintro ⟨⟨x, hx, rfl⟩, hmem⟩
      exact ⟨x, ⟨hx, hmem⟩, rfl⟩
  · exact hget hnodup x (List.mem_filter.2 ⟨hx, (hany x).2 hmem⟩)

/-! ## Tables and rows of sound databases -/

namespace Catalog

variable {c : Catalog} {db : Database}

theorem Plain.model?_eq (hp : c.Plain) {m : Model} (hm : m ∈ c.models) :
    c.model? m.name = some m :=
  (find?_key_eq_some hp.model_names).2 ⟨hm, rfl⟩

theorem model?_mem {name : String} {m : Model} (h : c.model? name = some m) :
    m ∈ c.models ∧ m.name = name :=
  ⟨List.mem_of_find?_eq_some h, by simpa using List.find?_some h⟩

/-- Tables without rows are sound. -/
theorem sound_tables (hempty : ∀ t ∈ c.tables, t.rows = []) : c.Sound c.tables := by
  refine ⟨?_, fun t ht r hr => ?_, fun t ht => ?_⟩
  · refine (List.map_congr_left fun t ht => ?_).trans (List.map_id _)
    rw [Table.emptied, ← hempty t ht]
    rfl
  · rw [hempty t ht] at hr
    cases hr
  · rw [hempty t ht]
    exact List.Pairwise.nil

namespace Sound

/-- A table is one of the catalog, with rows. -/
theorem emptied_mem (h : c.Sound db) {t : Table} (ht : t ∈ db) : t.emptied ∈ c.tables :=
  h.tables ▸ List.mem_map_of_mem ht

theorem names_nodup (h : c.Sound db) (hp : c.Plain) : (db.map Table.name).Nodup := by
  have heq : db.map Table.name = (db.map Table.emptied).map Table.name := by
    simp [Function.comp_def, Table.emptied]
  rw [heq, h.tables]
  exact hp.table_names

theorem column_names (h : c.Sound db) (hp : c.Plain) {t : Table} (ht : t ∈ db) :
    t.names.Nodup :=
  hp.column_names t.emptied (h.emptied_mem ht)

theorem simple (h : c.Sound db) (hp : c.Plain) {t : Table} (ht : t ∈ db) {x : Column}
    (hx : x ∈ t.columns) : x.type.isSimple = true :=
  hp.simple t.emptied (h.emptied_mem ht) x hx

theorem keyOf (h : c.Sound db) (hp : c.Plain) {t : Table} (ht : t ∈ db) (r : Row) :
    t.keyOf r = [Row.get r "id"] := by
  have hkey : t.keyColumns = ["id"] := hp.key t.emptied (h.emptied_mem ht)
  simp [Table.keyOf, hkey]

/-- The table of a model is there. -/
theorem table (h : c.Sound db) (hp : c.Plain) {m : Model} (hm : m ∈ c.models) :
    ∃ t, db.table m.rootTable = .ok t ∧ t ∈ db ∧ t.name = m.rootTable ∧
      ∀ x ∈ m.columns, x.table = t.name ∧ ∃ y ∈ t.columns, y.shape = x.column.shape := by
  obtain ⟨t₀, ht₀, hname, hshape⟩ := hp.shapes m hm
  obtain ⟨t, ht, rfl⟩ := List.mem_map.1 (h.tables ▸ ht₀)
  have hname : t.name = m.rootTable := hname
  refine ⟨t, hname ▸ Database.table_eq_ok (h.names_nodup hp) ht, ht, hname, fun x hx => ?_⟩
  refine ⟨(hp.columns m hm x hx).trans hname.symm, ?_⟩
  simpa [Table.emptied] using List.all_eq_true.1 hshape x hx

/-- A column of a model is in the table of the model, with the same type. -/
theorem column (h : c.Sound db) (hp : c.Plain) {m : Model} (hm : m ∈ c.models) {name : String}
    {x : MappedColumn} (hx : m.column? name = some x) :
    ∃ t, db.table m.rootTable = .ok t ∧
      ∃ y ∈ t.columns, y.name = name ∧ y.type = x.column.type := by
  obtain ⟨t, ht, -, -, hcols⟩ := h.table hp hm
  obtain ⟨-, y, hy, hshape⟩ := hcols x (List.mem_of_find?_eq_some hx)
  have hname : x.column.name = name := by simpa using List.find?_some hx
  simp only [Column.shape, Prod.mk.injEq] at hshape
  exact ⟨t, ht, y, hy, hshape.1.trans hname, hshape.2.1⟩

/-- The row of a number is found. -/
theorem row?_eq_some (h : c.Sound db) {name : String} {k : Int} {r : Row} :
    db.row? name k = some r ↔
      ∃ t, db.table name = .ok t ∧ r ∈ t.rows ∧ Row.get r "id" = .int k := by
  constructor
  · intro hr
    unfold Database.row? at hr
    split at hr
    · next t ht =>
      have hmem := List.mem_of_find?_eq_some hr
      obtain ⟨j, hj, -⟩ := (h.row t (Database.table_mem ht).1 r hmem).key
      have hk := List.find?_some hr
      simp only [hj, Value.int_beq, decide_eq_true_eq] at hk
      exact ⟨t, ht, hmem, hk ▸ hj⟩
    · cases hr
  · rintro ⟨t, ht, hr, hk⟩
    rw [Database.row?_eq ht]
    have hpair := h.distinct t (Database.table_mem ht).1
    have hkeys := fun r hr => (h.row t (Database.table_mem ht).1 r hr).key
    revert hr hpair hkeys
    generalize t.rows = rs
    intro hr hpair hkeys
    induction rs with
    | nil => cases hr
    | cons r' rs ih =>
      rw [List.pairwise_cons] at hpair
      rw [List.find?_cons]
      obtain ⟨j, hj, -⟩ := hkeys r' List.mem_cons_self
      rcases List.mem_cons.1 hr with rfl | hr
      · simp [hk]
      · have hne : j ≠ k := fun hjk => hpair.1 r hr (by rw [hj, hk, hjk])
        rw [hj, Value.int_beq, decide_eq_false hne]
        exact ih hr hpair.2 fun r hr => hkeys r (List.mem_cons_of_mem _ hr)

/-- The numbers of rows are those that the store can hold, from one on. -/
theorem number_range (h : c.Sound db) {name : String} {k : Int} {r : Row}
    (hr : db.row? name k = some r) : 1 ≤ k ∧ k < storeIntegerBound := by
  obtain ⟨t, ht, hmem, hk⟩ := h.row?_eq_some.1 hr
  obtain ⟨j, hj, hrange⟩ := (h.row t (Database.table_mem ht).1 r hmem).key
  obtain rfl := Value.int.inj (hk.symm.trans hj)
  exact hrange

/-- What a row has in a column of its model fits the column. -/
theorem cell (h : c.Sound db) (hp : c.Plain) {m : Model} (hm : m ∈ c.models) {k : Int} {r : Row}
    (hr : db.row? m.rootTable k = some r) {name : String} {x : MappedColumn}
    (hx : m.column? name = some x) : x.column.type.isSimple = true ∧
      (Row.get r name = .null ∧ x.column.isNullable = true ∨
        x.column.type.keeps (Row.get r name) = true) := by
  obtain ⟨t, ht, hmem, -⟩ := h.row?_eq_some.1 hr
  obtain ⟨t', ht', htmem, -, hcols⟩ := h.table hp hm
  obtain rfl := Except.ok.inj (ht.symm.trans ht')
  obtain ⟨-, y, hy, hshape⟩ := hcols x (List.mem_of_find?_eq_some hx)
  have hname : x.column.name = name := by simpa using List.find?_some hx
  simp only [Column.shape, Prod.mk.injEq] at hshape
  have hcell := (h.row t htmem r hmem).cell y hy
  rw [hshape.1, hname, hshape.2.1, hshape.2.2.2.1] at hcell
  exact ⟨hshape.2.1 ▸ h.simple hp htmem hy, hcell⟩

/-- What a row has in a column that refers to a table: nothing, or the number of a row. -/
theorem reference_cell (h : c.Sound db) (hp : c.Plain) {m : Model} (hm : m ∈ c.models)
    {k : Int} {r : Row} (hr : db.row? m.rootTable k = some r) {column table : String}
    (hrefers : m.refers column table = true) :
    Row.get r column = .null ∨
      ∃ j, Row.get r column = .int j ∧ (db.row? table j).isSome = true := by
  obtain ⟨x, hx, href⟩ := (Option.any_eq_true _ _).1 hrefers
  have href : x.column.refersTo = some (table, "id") := by simpa using href
  obtain ⟨t, ht, hmem, -⟩ := h.row?_eq_some.1 hr
  obtain ⟨t', ht', htmem, -, hcols⟩ := h.table hp hm
  obtain rfl := Except.ok.inj (ht.symm.trans ht')
  obtain ⟨-, y, hy, hshape⟩ := hcols x (List.mem_of_find?_eq_some hx)
  have hname : x.column.name = column := by simpa using List.find?_some hx
  simp only [Column.shape, Prod.mk.injEq] at hshape
  have hcell := (h.row t htmem r hmem).reference y hy (table, "id") (by simp [hshape, href])
  simpa [hshape.1, hname] using hcell

theorem find? (h : c.Sound db) (hp : c.Plain) {name : String} {t : Table}
    (ht : db.table name = .ok t) (k : Int) : t.find? [.int k] = db.row? name k := by
  rw [Database.row?_eq ht, Table.find?]
  congr 1
  funext r
  rw [h.keyOf hp (Database.table_mem ht).1]
  change ((Row.get r "id" == .int k) && true) = _
  simp

end Sound

end Catalog

/-! ## Writing rows -/

theorem Row.get_eq_find (r : Row) (n : String) :
    get r n = ((r.find? fun c => c.1 == n).map Prod.snd).getD .null := rfl

namespace Table

variable {t : Table} {cells : Row} {x : Column}

theorem completed_of_mem (h : x.name ∈ Row.names cells) (hk : t.numbered? ≠ some x.name) :
    t.completed cells x = Row.get cells x.name := by
  have hk' : (t.numbered? == some x.name) = false := beq_eq_false_iff_ne.2 hk
  unfold completed
  rw [Row.get_eq_find]
  cases hf : cells.find? fun c => c.1 == x.name with
  | none =>
    obtain ⟨c, hc, hname⟩ := List.mem_map.1 h
    simpa [hname] using List.find?_eq_none.1 hf c hc
  | some c => simp [hk']

theorem completed_of_not_mem (h : x.name ∉ Row.names cells) : t.completed cells x =
    if t.numbered? = some x.name then .int (t.nextNumber x.name)
    else x.storeDefault.getD .null := by
  have hf : (cells.find? fun c => c.1 == x.name) = none := by
    refine List.find?_eq_none.2 fun c hc => ?_
    have hne : c.1 ≠ x.name := fun h' => h (h' ▸ List.mem_map_of_mem hc)
    simpa using hne
  simp [completed, hf]

end Table

namespace Catalog

variable {c : Catalog} {db db' : Database}

theorem SoundRow.mono {t t' : Table} {r : Row} (h : c.SoundRow db t r)
    (hname : t'.name = t.name) (hcols : t'.columns = t.columns)
    (hg : ∀ name k, (db.row? name k).isSome = true → (db'.row? name k).isSome = true) :
    c.SoundRow db' t' r where
  names := by simpa [Table.names, hcols] using h.names
  key := h.key
  cell := fun x hx => h.cell x (hcols ▸ hx)
  reference := fun x hx y hy => (h.reference x (hcols ▸ hx) y hy).imp id
    fun ⟨k, hk, hrow⟩ => ⟨k, hk, hg _ _ hrow⟩
  kind := fun m hm hroot => hname ▸ h.kind m hm (hroot.trans hname)

/-- A row with the identity of a built model is one of its records. -/
theorem Plain.modelOfRow_eq (hp : c.Plain) {m n : Model} (hn : n ∈ c.models)
    (hroot : n.rootTable = m.rootTable) (hb : n.isBuilt = true) {k i : String}
    (hk : m.discriminator = some k) (hkn : n.discriminator = some k) (hi : n.identity = some i)
    {r : Row} (hr : Row.get r k = .text i) : c.modelOfRow m r = .ok n := by
  obtain ⟨-, hfind⟩ := hp.identity n hn hb (by simp [hkn])
  unfold modelOfRow
  have hcond : (fun x : Model => x.rootTable == m.rootTable &&
      x.identity.map Value.text == some (Row.get r k)) =
      fun x => x.rootTable == n.rootTable && x.identity == n.identity := by
    funext x
    rw [hroot, hr, hi]
    cases x.identity with
    | none => rfl
    | some j => rfl
  simp only [hk, hcond]
  cases hx : c.models.find? fun x => x.rootTable == n.rootTable && x.identity == n.identity with
  | none => simp [hx] at hfind
  | some x =>
    have hname : x.name = n.name := by simpa [hx] using hfind
    have hmem := List.mem_of_find?_eq_some hx
    have heq : some x = some n := by rw [← hp.model?_eq hmem, hname, hp.model?_eq hn]
    simpa using heq

/-- The kind of a row whose discriminator has the identity of a built model. -/
theorem Plain.exists_modelOfRow (hp : c.Plain) {t : Table} {r : Row} {m : Model}
    (hm : m ∈ c.models) (hroot : m.rootTable = t.name)
    (hkind : ∀ k ∈ m.discriminator, ∃ n ∈ c.models, n.rootTable = t.name ∧ n.isBuilt = true ∧
      ∃ i, n.identity = some i ∧ Row.get r k = .text i) :
    ∃ n ∈ c.models, c.modelOfRow m r = .ok n ∧ n.rootTable = t.name ∧ n.isBuilt = true := by
  cases hk : m.discriminator with
  | none => exact ⟨m, hm, by simp [modelOfRow, hk], hroot, by simp [Model.isBuilt, hk]⟩
  | some k =>
    obtain ⟨n, hn, hroot', hb, i, hi, hr⟩ := hkind k hk
    have hsame := hroot'.trans hroot.symm
    have hkn : n.discriminator = some k := (hp.sameKind n hn m hm hsame).trans hk
    exact ⟨n, hn, hp.modelOfRow_eq hn hsame hb hk hkn hi hr, hroot', hb⟩

/-- The column of the discriminator of a model in the table of the model. -/
theorem Plain.kind_column (hp : c.Plain) {m : Model} (hm : m ∈ c.models) {k : String}
    (hk : m.discriminator = some k) {t : Table}
    (ht : ∀ x ∈ m.columns, x.table = t.name ∧ ∃ y ∈ t.columns, y.shape = x.column.shape) :
    ∃ y ∈ t.columns, y.name = k ∧ y.type = .string ∧ y.refersTo = none ∧ y.isKey = false := by
  have h := hp.kind m hm k hk
  cases hx : m.column? k with
  | none => simp [hx] at h
  | some x =>
    simp only [hx, Option.any_some, Bool.and_eq_true, beq_iff_eq, Bool.not_eq_true',
      Option.isNone_iff_eq_none] at h
    obtain ⟨y, hy, hshape⟩ := (ht x (List.mem_of_find?_eq_some hx)).2
    have hname : x.column.name = k := by simpa using List.find?_some hx
    simp only [Column.shape, Prod.mk.injEq] at hshape
    obtain ⟨hn, htype, hkey, -, href⟩ := hshape
    exact ⟨y, hy, hn.trans hname, htype.trans h.1.1, href.trans h.2, hkey.trans h.1.2⟩

namespace Sound

/-- Columns of one name are one column. -/
theorem column_eq (h : c.Sound db) (hp : c.Plain) {t : Table} (ht : t ∈ db) {x y : Column}
    (hx : x ∈ t.columns) (hy : y ∈ t.columns) (hxy : x.name = y.name) : x = y :=
  List.inj_on_of_nodup_map (h.column_names hp ht) hx hy hxy

/-- The column of the numbers. -/
theorem key_column (h : c.Sound db) (hp : c.Plain) {t : Table} (ht : t ∈ db) :
    ∃ x ∈ t.columns, x.name = "id" ∧ x.type = .integer ∧ x.refersTo = none := by
  have hnum : t.numbered? = some "id" := hp.numbered t.emptied (h.emptied_mem ht)
  unfold Table.numbered? at hnum
  split at hnum
  · next x hx =>
    have hmem : x ∈ t.columns.filter Column.isKey := by simp [hx]
    split at hnum
    · next hcond =>
      simp only [Bool.and_eq_true, decide_eq_true_eq, Option.isNone_iff_eq_none] at hcond
      exact ⟨x, (List.mem_filter.1 hmem).1, Option.some.inj hnum, hcond⟩
    · cases hnum
  · cases hnum

/-- A table is put in the place of one with the same columns. -/
theorem tables_replace (h : c.Sound db) (hp : c.Plain) {t t' : Table} (ht : t ∈ db)
    (hname : t'.name = t.name) (hcols : t'.columns = t.columns) :
    (db.replace t').map Table.emptied = c.tables := by
  rw [Database.map_replace, h.tables]
  intro old hold heq
  have hold' : old = t := by
    have h1 := Database.table_eq_ok (h.names_nodup hp) hold
    have h2 := Database.table_eq_ok (h.names_nodup hp) ht
    rw [heq, hname, h2] at h1
    exact (Except.ok.inj h1).symm
  rw [hold']
  simp [Table.emptied, hname, hcols]

/-- What is stored of cells that fit is kept by their columns. -/
theorem stored_of_fits (h : c.Sound db) (hp : c.Plain) {t : Table} (ht : t ∈ db)
    {cells stored : Row} (hf : c.Fits db t cells) (hs : t.storeCells cells = .ok stored)
    {x : Column} (hx : x ∈ t.columns) (hmem : x.name ∈ Row.names stored) :
    (Row.get stored x.name = .null ∨ x.type.keeps (Row.get stored x.name) = true) ∧
      (∀ y ∈ x.refersTo, Row.get stored x.name = .null ∨
        ∃ k, Row.get stored x.name = .int k ∧ (db.row? y.1 k).isSome = true) ∧
      (x.type = .string → Row.get stored x.name = Row.get cells x.name) := by
  obtain ⟨hnames, -, hstore⟩ := Table.storeCells_eq_ok (h.column_names hp ht) hs
  have hcells : x.name ∈ Row.names cells := ((hnames _).1 hmem).2
  have hsimple := h.simple hp ht hx
  have hv := hstore x hx hcells
  refine ⟨?_, fun y hy => ?_, fun htype => ?_⟩
  · rcases hf.value x hx hcells with hnull | hholds
    · rw [hnull, ColumnType.store_null hsimple] at hv
      exact Or.inl (Except.ok.inj hv).symm
    · exact Or.inr (ColumnType.keeps_of_store hsimple hholds hv)
  · obtain ⟨-, htype, -⟩ := hp.reference t.emptied (h.emptied_mem ht) x hx y hy
    rcases hf.reference x hx y hy hcells with hnull | ⟨k, hk, hrow⟩
    · rw [hnull, ColumnType.store_null hsimple] at hv
      exact Or.inl (Except.ok.inj hv).symm
    · rw [hk, htype] at hv
      exact Or.inr ⟨k, ColumnType.store_int hv, hrow⟩
  · rw [htype] at hv
    rcases hf.value x hx hcells with hnull | hholds
    · rw [hnull] at hv ⊢
      exact (Except.ok.inj hv).symm
    · rw [htype] at hholds
      cases hc : Row.get cells x.name <;> rw [hc] at hholds hv <;> cases hholds
      · exact (Except.ok.inj hv).symm
      · cases hv

theorem stores_of_fits (h : c.Sound db) (hp : c.Plain) {t : Table} (ht : t ∈ db)
    {cells stored : Row} (hf : c.Fits db t cells) (hs : t.storeCells cells = .ok stored)
    {x : Column} (hx : x ∈ t.columns) (hmem : x.name ∈ Row.names cells) :
    x.name ∈ Row.names stored ∧ x.Stores (Row.get cells x.name) (Row.get stored x.name) := by
  obtain ⟨hnames, -, hstore⟩ := Table.storeCells_eq_ok (h.column_names hp ht) hs
  have hstored : x.name ∈ Row.names stored := (hnames _).2 ⟨List.mem_map_of_mem hx, hmem⟩
  have hv := hstore x hx hmem
  refine ⟨hstored, hv, fun hnull => ?_, (h.stored_of_fits hp ht hf hs hx hstored).2.2⟩
  rw [hnull, ColumnType.store_null (h.simple hp ht hx)] at hv
  exact (Except.ok.inj hv).symm

end Sound

end Catalog

/-! ## The rows by the names of their tables -/

namespace Database

/-- The rows of a table; none where there is no such table. -/
def rowsOf (db : Database) (name : String) : List Row :=
  match db.find? fun t => t.name == name with
  | some t => t.rows
  | none => []

theorem rowsOf_eq {db : Database} {name : String} {t : Table} (h : db.table name = .ok t) :
    db.rowsOf name = t.rows := by
  unfold table at h
  unfold rowsOf
  cases hfind : db.find? fun t => t.name == name with
  | none =>
    rw [hfind] at h
    cases h
  | some u =>
    rw [hfind] at h
    exact congrArg Table.rows (Except.ok.inj h)

theorem mem_rowsOf {db : Database} {name : String} {r : Row} :
    r ∈ db.rowsOf name ↔ ∃ t, db.table name = .ok t ∧ r ∈ t.rows := by
  unfold rowsOf table
  cases db.find? fun t => t.name == name <;> simp

end Database

namespace Catalog.Sound

variable {c : Catalog} {db : Database} (h : c.Sound db) {name : String} {r : Row}

include h

/-- A table has no more rows than there are numbers in the range of the store. -/
theorem length_rowsOf_le (name : String) :
    ((db.rowsOf name).length : Int) ≤ storeIntegerBound := by
  cases ht : db.table name with
  | error f =>
    have hnone : db.rowsOf name = [] := List.eq_nil_iff_forall_not_mem.2 fun r hr => by
      obtain ⟨t, ht', -⟩ := Database.mem_rowsOf.1 hr
      cases ht.symm.trans ht'
    rw [hnone]
    decide
  | ok t =>
    rw [Database.rowsOf_eq ht]
    obtain ⟨hmem, -⟩ := Database.table_mem ht
    have hnodup : (t.rows.map (Row.get · "id")).Nodup := List.pairwise_map.2 (h.distinct t hmem)
    have hsubset : t.rows.map (Row.get · "id") ⊆
        (List.range storeIntegerBound.toNat).map fun n : Nat => Value.int n := by
      intro v hv
      obtain ⟨r, hr, rfl⟩ := List.mem_map.1 hv
      obtain ⟨k, hk, hlow, hhigh⟩ := (h.row t hmem r hr).key
      refine List.mem_map.2 ⟨k.toNat, List.mem_range.2 (by omega), ?_⟩
      rw [hk, Int.toNat_of_nonneg (by omega)]
    have hlength := (List.subperm_of_subset hnodup hsubset).length_le
    rw [List.length_map, List.length_map, List.length_range] at hlength
    have hbound : 0 ≤ storeIntegerBound := by decide
    omega

variable (hr : r ∈ db.rowsOf name)

include hr

/-- The columns of a row are those of a table of the catalog. -/
theorem exists_table : ∃ t ∈ db, t.emptied ∈ c.tables ∧ t.name = name ∧ c.SoundRow db t r := by
  obtain ⟨t, ht, hr⟩ := Database.mem_rowsOf.1 hr
  obtain ⟨hmem, hname⟩ := Database.table_mem ht
  exact ⟨t, hmem, h.emptied_mem hmem, hname, h.row t hmem r hr⟩

/-- What must not be empty is not. -/
theorem ne_null_of_mem_rowsOf {column : String} (hcolumn : ∀ t ∈ c.tables, t.name = name →
    ∃ x ∈ t.columns, x.name = column ∧ x.isNullable = false) : Row.get r column ≠ .null := by
  obtain ⟨t, -, ht, hname, hrow⟩ := h.exists_table hr
  obtain ⟨x, hx, rfl, hnull⟩ := hcolumn t.emptied ht hname
  intro hempty
  rcases hrow.cell x hx with ⟨-, hnullable⟩ | hkeeps
  · rw [hnull] at hnullable
    cases hnullable
  · rw [hempty] at hkeeps
    cases htype : x.type <;> rw [htype] at hkeeps <;> cases hkeeps

/-- Nothing but texts is in a column of texts. -/
theorem text_of_mem_rowsOf {column : String} (hcolumn : ∀ t ∈ c.tables, t.name = name →
    ∃ x ∈ t.columns, x.name = column ∧ x.type = .string) :
    Row.get r column = .null ∨ ∃ text, Row.get r column = .text text := by
  obtain ⟨t, -, ht, hname, hrow⟩ := h.exists_table hr
  obtain ⟨x, hx, rfl, htype⟩ := hcolumn t.emptied ht hname
  refine (hrow.cell x hx).imp And.left fun hkeeps => ?_
  rw [htype] at hkeeps
  cases hvalue : Row.get r x.name <;> simp_all [ColumnType.keeps]

/-- What refers to a row of a table refers to one that is there. -/
theorem exists_referred {column table : String} (hcolumn : ∀ t ∈ c.tables, t.name = name →
    ∃ x ∈ t.columns, x.name = column ∧ x.refersTo = some (table, "id")) :
    Row.get r column = .null ∨ ∃ a ∈ db.rowsOf table, Row.get a "id" = Row.get r column := by
  obtain ⟨t, -, ht, hname, hrow⟩ := h.exists_table hr
  obtain ⟨x, hx, rfl, hrefers⟩ := hcolumn t.emptied ht hname
  rcases hrow.reference x hx _ hrefers with hnull | ⟨k, hk, hsome⟩
  · exact Or.inl hnull
  · obtain ⟨a, ha⟩ := Option.isSome_iff_exists.1 hsome
    obtain ⟨u, hu, hmem, hid⟩ := h.row?_eq_some.1 ha
    exact Or.inr ⟨a, Database.mem_rowsOf.2 ⟨u, hu, hmem⟩, hid.trans hk.symm⟩

/-- A row is found by its number. -/
theorem exists_key : ∃ k : Int, Row.get r "id" = .int k ∧ db.row? name k = some r := by
  obtain ⟨t, ht, hmem⟩ := Database.mem_rowsOf.1 hr
  obtain ⟨k, hk, -⟩ := (h.row t (Database.table_mem ht).1 r hmem).key
  exact ⟨k, hk, h.row?_eq_some.2 ⟨t, ht, hmem, hk⟩⟩

end Catalog.Sound

end Hypermedia
