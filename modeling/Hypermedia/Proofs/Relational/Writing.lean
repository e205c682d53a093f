import Hypermedia.Proofs.Relational.Sound

/-!
# Writing sound databases

A sound database stays sound when cells that fit are inserted or written (`Sound.insert`,
`Sound.update`), and when a row is deleted to which nothing refers (`Sound.delete`). No row
changes but the one that is written.
-/

namespace Hypermedia

/-! ## Inserting -/

/-- A table with one more row. -/
def Table.append (t : Table) (row : Row) : Table := { t with rows := t.rows ++ [row] }

theorem Database.insert_eq_ok {db db' : Database} {name : String} {cells row : Row}
    (h : db.insert name cells = .ok (db', row)) :
    ∃ t stored, db.table name = .ok t ∧ t.storeCells cells = .ok stored ∧
      row = t.complete stored ∧ t.checkNumber row = .ok () ∧ t.check t.rows row = .ok () ∧
      db' = db.replace (t.append row) := by
  obtain ⟨t, ht, h⟩ := bind_eq_ok.1 h
  obtain ⟨⟨t', row'⟩, hins, h⟩ := bind_eq_ok.1 h
  obtain ⟨stored, hs, hins⟩ := bind_eq_ok.1 hins
  obtain ⟨⟨⟩, hn, hins⟩ := bind_eq_ok.1 hins
  obtain ⟨⟨⟩, hc, hins⟩ := bind_eq_ok.1 hins
  cases pure_eq_ok.1 hins
  cases pure_eq_ok.1 h
  exact ⟨t, stored, ht, hs, rfl, hn, hc, rfl⟩

namespace Catalog

variable {c : Catalog} {db db' : Database}

namespace Sound

/-- The cells of a new row. -/
theorem get_complete (h : c.Sound db) (hp : c.Plain) {t : Table} (ht : t ∈ db) {stored : Row}
    (hkey : "id" ∉ Row.names stored) {x : Column} (hx : x ∈ t.columns) :
    Row.get (t.complete stored) x.name =
      if x.name = "id" then .int (t.nextNumber "id")
      else if x.name ∈ Row.names stored then Row.get stored x.name else .null := by
  have hnum : t.numbered? = some "id" := hp.numbered t.emptied (h.emptied_mem ht)
  have hdef : x.storeDefault = none := by
    simpa using hp.storeDefault t.emptied (h.emptied_mem ht) x hx
  rw [Table.get_complete (h.column_names hp ht) _ hx]
  by_cases hid : x.name = "id"
  · rw [Table.completed_of_not_mem (by rwa [hid]), if_pos (by rw [hnum, hid]), if_pos hid, hid]
  · have hne : t.numbered? ≠ some x.name := by
      rw [hnum]
      simpa using fun h => hid h.symm
    rw [if_neg hid]
    by_cases hmem : x.name ∈ Row.names stored
    · rw [Table.completed_of_mem hmem hne, if_pos hmem]
    · rw [Table.completed_of_not_mem hmem, if_neg hne, if_neg hmem, hdef]
      rfl

/-- What is stored of a discriminator is what it is given. -/
theorem stored_kind (h : c.Sound db) (hp : c.Plain) {t : Table} (ht : t ∈ db) {m : Model}
    (hm : m ∈ c.models) (hroot : m.rootTable = t.name) {k : String} (hk : m.discriminator = some k)
    {cells stored : Row} (hfit : c.Fits db t cells) (hs : t.storeCells cells = .ok stored)
    (hmem : k ∈ Row.names cells) :
    k ∈ Row.names stored ∧ Row.get stored k = Row.get cells k ∧
      ∃ x ∈ t.columns, x.name = k ∧ k ≠ "id" := by
  obtain ⟨t', ht', -, -, hcols⟩ := h.table hp hm
  rw [hroot, Database.table_eq_ok (h.names_nodup hp) ht] at ht'
  obtain rfl := Except.ok.inj ht'
  obtain ⟨y, hy, rfl, htype, -, -⟩ := hp.kind_column hm hk hcols
  obtain ⟨x₀, hx₀, hx₀name, htype₀, -⟩ := h.key_column hp ht
  obtain ⟨hnames, -, -⟩ := Table.storeCells_eq_ok (h.column_names hp ht) hs
  have hid : y.name ≠ "id" := by
    intro hid
    obtain rfl := h.column_eq hp ht hy hx₀ (hid.trans hx₀name.symm)
    rw [htype₀] at htype
    cases htype
  have hstored : y.name ∈ Row.names stored := (hnames _).2 ⟨List.mem_map_of_mem hy, hmem⟩
  exact ⟨hstored, (h.stored_of_fits hp ht hfit hs hy hstored).2.2 htype, y, hy, rfl, hid⟩

/-- The rows of a database with one more row. -/
theorem row?_append (h : c.Sound db) {name : String} {t : Table} (ht : db.table name = .ok t)
    {row : Row} {k : Int} (hid : Row.get row "id" = .int k)
    (hnew : ∀ r ∈ t.rows, Row.get r "id" ≠ .int k) (name' : String) (k' : Int) :
    (db.replace (t.append row)).row? name' k' =
      if name' = name ∧ k' = k then some row else db.row? name' k' := by
  obtain ⟨htmem, rfl⟩ := Database.table_mem ht
  have hnone : (t.rows.find? fun r => Row.get r "id" == .int k) = none := by
    refine List.find?_eq_none.2 fun r hr => ?_
    obtain ⟨j, hj, -⟩ := (h.row t htmem r hr).key
    have hne : j ≠ k := fun hjk => hnew r hr (hjk ▸ hj)
    simp [hj, hne]
  rw [Database.row?_replace (show db.table (t.append row).name = .ok t from ht)]
  by_cases hn : name' = t.name
  · subst hn
    simp only [Table.append, if_true, true_and, List.find?_append, Database.row?_eq ht]
    by_cases hk : k' = k
    · subst hk
      simp [hnone, hid]
    · have hk' : ¬k = k' := fun h => hk h.symm
      simp [hid, hk, hk']
  · simp [Table.append, hn]

/-- A database with one more sound row with a new number is sound. -/
theorem append (h : c.Sound db) (hp : c.Plain) {t : Table} (ht : t ∈ db) {row : Row} {k : Int}
    (hid : Row.get row "id" = .int k) (hnew : ∀ r ∈ t.rows, Row.get r "id" ≠ .int k)
    (hrow : c.SoundRow (db.replace (t.append row)) t row) :
    c.Sound (db.replace (t.append row)) := by
  have hgrow : ∀ name' k', (db.row? name' k').isSome = true →
      ((db.replace (t.append row)).row? name' k').isSome = true := by
    intro name' k' hsome
    rw [h.row?_append (Database.table_eq_ok (h.names_nodup hp) ht) hid hnew]
    split
    · rfl
    · exact hsome
  refine ⟨h.tables_replace hp ht rfl rfl, fun u hu r hr => ?_, fun u hu => ?_⟩
  · rcases Database.mem_replace hu with rfl | ⟨hu, -⟩
    · rcases List.mem_append.1 hr with hr | hr
      · exact (h.row t ht r hr).mono rfl rfl hgrow
      · rw [List.mem_singleton.1 hr]
        exact hrow.mono rfl rfl fun _ _ h => h
    · exact (h.row u hu r hr).mono rfl rfl hgrow
  · rcases Database.mem_replace hu with rfl | ⟨hu, -⟩
    · refine List.pairwise_append.2 ⟨h.distinct t ht, List.pairwise_singleton _ _, ?_⟩
      intro r hr r' hr' heq
      rw [List.mem_singleton.1 hr', hid] at heq
      exact hnew r hr heq
    · exact h.distinct u hu

/-- The row that is made of cells that fit is sound if it passes the checks. -/
theorem soundRow_complete (h : c.Sound db) (hp : c.Plain) {t : Table} (ht : t ∈ db)
    {cells stored : Row} (hfit : c.Fits db t cells) (hs : t.storeCells cells = .ok stored)
    (hkind : ∀ m ∈ c.models, m.rootTable = t.name → ∀ k ∈ m.discriminator,
      k ∈ Row.names cells)
    (hnum : t.checkNumber (t.complete stored) = .ok ())
    (hcheck : t.check t.rows (t.complete stored) = .ok ()) :
    Row.get (t.complete stored) "id" = .int (t.nextNumber "id") ∧
      c.SoundRow db t (t.complete stored) := by
  obtain ⟨hnames, -, -⟩ := Table.storeCells_eq_ok (h.column_names hp ht) hs
  have hnokey : "id" ∉ Row.names stored := fun h' => hfit.noKey ((hnames _).1 h').2
  obtain ⟨x₀, hx₀, hx₀name, htype₀, href₀⟩ := h.key_column hp ht
  have hid : Row.get (t.complete stored) "id" = .int (t.nextNumber "id") := by
    have hget := h.get_complete hp ht hnokey hx₀
    rwa [hx₀name, if_pos rfl] at hget
  have hpos := (t.lt_nextNumber "id").1
  have hrange : t.nextNumber "id" < storeIntegerBound := by
    have hnumbered : t.numbered? = some "id" := hp.numbered t.emptied (h.emptied_mem ht)
    rw [Table.checkNumber, hnumbered] at hnum
    simp only [Option.map_some, hid] at hnum
    split at hnum
    · assumption
    · cases hnum
  -- Every column but that of the numbers has what is stored in it, or nothing.
  have hcell : ∀ x ∈ t.columns, x.name ≠ "id" →
      x.name ∈ Row.names stored ∧ Row.get (t.complete stored) x.name = Row.get stored x.name ∨
        Row.get (t.complete stored) x.name = .null := by
    intro x hx hne
    have hget := h.get_complete hp ht hnokey hx
    rw [if_neg hne] at hget
    by_cases hmem : x.name ∈ Row.names stored
    · exact Or.inl ⟨hmem, by rwa [if_pos hmem] at hget⟩
    · exact Or.inr (by rwa [if_neg hmem] at hget)
  refine ⟨hid, Table.names_complete t stored, ⟨_, hid, hpos, hrange⟩, fun x hx => ?_,
    fun x hx y hy => ?_, fun m hm hroot => hp.exists_modelOfRow hm hroot fun k hk => ?_⟩
  · by_cases hnull : Row.get (t.complete stored) x.name = .null
    · refine Or.inl ⟨hnull, ?_⟩
      by_contra hn
      exact Table.check_eq_ok hcheck hx (by simpa using hn) hnull
    · refine Or.inr ?_
      by_cases hne : x.name = "id"
      · obtain rfl := h.column_eq hp ht hx hx₀ (hne.trans hx₀name.symm)
        rw [hne, hid, htype₀]
        simp only [ColumnType.keeps, decide_eq_true_eq]
        exact ⟨by simp only [storeIntegerBound]; omega, hrange⟩
      · obtain ⟨hmem, hget⟩ := (hcell x hx hne).resolve_right hnull
        rw [hget] at hnull ⊢
        exact (h.stored_of_fits hp ht hfit hs hx hmem).1.resolve_left hnull
  · have hne : x.name ≠ "id" := by
      intro hne
      obtain rfl := h.column_eq hp ht hx hx₀ (hne.trans hx₀name.symm)
      simp [href₀] at hy
    rcases hcell x hx hne with ⟨hmem, hget⟩ | hnull
    · rw [hget]
      exact (h.stored_of_fits hp ht hfit hs hx hmem).2.1 y hy
    · exact Or.inl hnull
  · obtain ⟨n, hn, hroot', hb, i, hi, hk'⟩ := hfit.kind m hm hroot k hk (hkind m hm hroot k hk)
    obtain ⟨hstored, hget, x, hx, rfl, hne⟩ :=
      h.stored_kind hp ht hm hroot hk hfit hs (hkind m hm hroot k hk)
    refine ⟨n, hn, hroot', hb, i, hi, ?_⟩
    rwa [h.get_complete hp ht hnokey hx, if_neg hne, if_pos hstored, hget]

/-- A database with one more row is sound if the cells of the row fit. -/
theorem insert (h : c.Sound db) (hp : c.Plain) {name : String} {cells row : Row}
    (hins : db.insert name cells = .ok (db', row))
    (hfit : ∀ t, db.table name = .ok t → c.Fits db t cells ∧
      ∀ m ∈ c.models, m.rootTable = t.name → ∀ k ∈ m.discriminator, k ∈ Row.names cells) :
    c.Sound db' ∧ (∃ k, Row.get row "id" = .int k ∧ db.row? name k = none ∧
      ∀ name' k', db'.row? name' k' =
        if name' = name ∧ k' = k then some row else db.row? name' k') ∧
      ∀ t, db.table name = .ok t → ∀ x ∈ t.columns, x.name ∈ Row.names cells →
        x.Stores (Row.get cells x.name) (Row.get row x.name) := by
  obtain ⟨t, stored, ht, hs, rfl, hnum, hcheck, rfl⟩ := Database.insert_eq_ok hins
  obtain ⟨hfit, hkind⟩ := hfit t ht
  obtain ⟨htmem, hname⟩ := Database.table_mem ht
  obtain ⟨hid, hrow⟩ := h.soundRow_complete hp htmem hfit hs hkind hnum hcheck
  have hnew : ∀ r ∈ t.rows, Row.get r "id" ≠ .int (t.nextNumber "id") := fun r hr heq =>
    absurd ((t.lt_nextNumber "id").2 r hr _ heq) (Int.lt_irrefl _)
  have hrows := h.row?_append ht hid hnew
  have hnone : db.row? name (t.nextNumber "id") = none := by
    cases hfind : db.row? name (t.nextNumber "id") with
    | none => rfl
    | some r =>
      obtain ⟨t', ht', hr, hk⟩ := h.row?_eq_some.1 hfind
      obtain rfl := Except.ok.inj (ht.symm.trans ht')
      exact absurd hk (hnew r hr)
  refine ⟨h.append hp htmem hid hnew (hrow.mono rfl rfl fun name' k' hsome => ?_),
    ⟨_, hid, hnone, hrows⟩, fun t' ht' x hx hmem => ?_⟩
  · rw [hrows]
    split
    · rfl
    · exact hsome
  · obtain rfl := Except.ok.inj (ht.symm.trans ht')
    obtain ⟨hstored, hst⟩ := h.stores_of_fits hp htmem hfit hs hx hmem
    have hne : x.name ≠ "id" := fun hid => hfit.noKey (hid ▸ hmem)
    have hnokey : "id" ∉ Row.names stored := fun h' =>
      hfit.noKey (((Table.storeCells_eq_ok (h.column_names hp htmem) hs).1 _).1 h').2
    rwa [h.get_complete hp htmem hnokey hx, if_neg hne, if_pos hstored]

end Sound

end Catalog

/-! ## Updating -/

theorem Database.update_eq_ok {db db' : Database} {name : String} {key : List Value}
    {cells : Row} (h : db.update name key cells = .ok db') :
    ∃ t stored old, db.table name = .ok t ∧ t.storeCells cells = .ok stored ∧
      t.find? key = some old ∧
      t.check (t.rows.filter fun r => t.keyOf r != key) (Row.setAll old stored) = .ok () ∧
      db' = db.replace
        { t with
          rows := t.rows.map fun r => if t.keyOf r == key then Row.setAll old stored else r } := by
  obtain ⟨t, ht, h⟩ := bind_eq_ok.1 h
  obtain ⟨t', hu, h⟩ := bind_eq_ok.1 h
  obtain ⟨stored, hs, hu⟩ := bind_eq_ok.1 hu
  cases hold : t.find? key with
  | none => simp [hold] at hu
  | some old =>
    rw [hold] at hu
    obtain ⟨⟨⟩, hc, hu⟩ := bind_eq_ok.1 hu
    cases pure_eq_ok.1 hu
    cases pure_eq_ok.1 h
    exact ⟨t, stored, old, ht, hs, hold, hc, rfl⟩

/-- A table with another row for a number. -/
def Table.put (t : Table) (k : Int) (row : Row) : Table :=
  { t with rows := t.rows.map fun r => if Row.get r "id" == .int k then row else r }

namespace Catalog

variable {c : Catalog} {db db' : Database}

namespace Sound

/-- The rows of a database with another row for a number. -/
theorem row?_put (h : c.Sound db) {name : String} {t : Table} (ht : db.table name = .ok t)
    {old row : Row} {k : Int} (hold : db.row? name k = some old)
    (hid : Row.get row "id" = .int k) (name' : String) (k' : Int) :
    (db.replace (t.put k row)).row? name' k' =
      if name' = name ∧ k' = k then some row else db.row? name' k' := by
  obtain ⟨htmem, rfl⟩ := Database.table_mem ht
  rw [Database.row?_replace (show db.table (t.put k row).name = .ok t from ht)]
  by_cases hn : name' = t.name
  · subst hn
    rw [Database.row?_eq ht] at hold
    simp only [Table.put, if_true, true_and, Database.row?_eq ht]
    by_cases hk : k' = k
    · subst hk
      have hcomp : ((fun r => Row.get r "id" == .int k') ∘
          fun r => if Row.get r "id" == .int k' then row else r) =
          fun r => Row.get r "id" == .int k' := by
        funext r
        by_cases hr : (Row.get r "id" == .int k') = true <;> simp [hr, hid]
      have hfound := List.find?_some hold
      rw [List.find?_map, hcomp, hold]
      simp [hfound]
    · have hkeys := fun r hr => (h.row t htmem r hr).key
      have hne : decide (k = k') = false := decide_eq_false fun h => hk h.symm
      rw [if_neg hk]
      generalize t.rows = rs at hkeys ⊢
      induction rs with
      | nil => rfl
      | cons r rs ih =>
        obtain ⟨j, hj, -⟩ := hkeys r List.mem_cons_self
        have hrs := ih (fun r hr => hkeys r (List.mem_cons_of_mem _ hr))
        rw [List.map_cons, List.find?_cons, List.find?_cons, hrs]
        by_cases hjk : j = k
        · subst hjk
          simp [hj, hid, hne]
        · simp [hj, hjk]
  · simp [Table.put, hn]

/-- A row that is written with cells that fit is sound if it passes the checks. -/
theorem soundRow_setAll (h : c.Sound db) (hp : c.Plain) {t : Table} (ht : t ∈ db) {old : Row}
    (hold : old ∈ t.rows) {cells stored : Row} (hfit : c.Fits db t cells)
    (hs : t.storeCells cells = .ok stored) {others : List Row}
    (hcheck : t.check others (Row.setAll old stored) = .ok ()) :
    Row.get (Row.setAll old stored) "id" = Row.get old "id" ∧
      c.SoundRow db t (Row.setAll old stored) := by
  have hsound := h.row t ht old hold
  obtain ⟨hnames, hnodup, -⟩ := Table.storeCells_eq_ok (h.column_names hp ht) hs
  have hnokey : "id" ∉ Row.names stored := fun h' => hfit.noKey ((hnames _).1 h').2
  have hid : Row.get (Row.setAll old stored) "id" = Row.get old "id" :=
    Row.get_setAll_of_not_mem hnokey
  -- Every column has what is stored in it, or what it had before.
  have hcell : ∀ x ∈ t.columns, x.name ∈ Row.names stored ∧
      Row.get (Row.setAll old stored) x.name = Row.get stored x.name ∨
        Row.get (Row.setAll old stored) x.name = Row.get old x.name := by
    intro x hx
    by_cases hmem : x.name ∈ Row.names stored
    · have hxold : x.name ∈ Row.names old := hsound.names ▸ List.mem_map_of_mem hx
      exact Or.inl ⟨hmem, Row.get_setAll_of_mem hnodup hxold hmem⟩
    · exact Or.inr (Row.get_setAll_of_not_mem hmem)
  refine ⟨hid, (Row.names_setAll _ _).trans hsound.names, hid ▸ hsound.key, fun x hx => ?_,
    fun x hx y hy => ?_, fun m hm hroot => ?_⟩
  · by_cases hnull : Row.get (Row.setAll old stored) x.name = .null
    · refine Or.inl ⟨hnull, ?_⟩
      by_contra hn
      exact Table.check_eq_ok hcheck hx (by simpa using hn) hnull
    · refine Or.inr ?_
      rcases hcell x hx with ⟨hmem, hget⟩ | hget <;> rw [hget] at hnull ⊢
      · exact (h.stored_of_fits hp ht hfit hs hx hmem).1.resolve_left hnull
      · exact (hsound.cell x hx).resolve_left fun h => hnull h.1
  · rcases hcell x hx with ⟨hmem, hget⟩ | hget <;> rw [hget]
    · exact (h.stored_of_fits hp ht hfit hs hx hmem).2.1 y hy
    · exact hsound.reference x hx y hy
  · by_cases hwritten : ∃ k, m.discriminator = some k ∧ k ∈ Row.names stored
    · obtain ⟨k, hk, hmem⟩ := hwritten
      refine hp.exists_modelOfRow hm hroot fun k' hk' => ?_
      obtain rfl := Option.some.inj (hk.symm.trans hk')
      obtain ⟨n, hn, hroot', hb, i, hi, hk'⟩ := hfit.kind m hm hroot k hk ((hnames k).1 hmem).2
      obtain ⟨-, hget, x, hx, rfl, -⟩ :=
        h.stored_kind hp ht hm hroot hk hfit hs ((hnames k).1 hmem).2
      have hxold : x.name ∈ Row.names old := hsound.names ▸ List.mem_map_of_mem hx
      refine ⟨n, hn, hroot', hb, i, hi, ?_⟩
      rwa [Row.get_setAll_of_mem hnodup hxold hmem, hget]
    · obtain ⟨n, hn, hmodel, hrest⟩ := hsound.kind m hm hroot
      refine ⟨n, hn, ?_, hrest⟩
      rw [← hmodel]
      unfold modelOfRow
      cases hk : m.discriminator with
      | none => rfl
      | some k =>
        have hk' : k ∉ Row.names stored := fun hmem => hwritten ⟨k, hk, hmem⟩
        simp only [Row.get_setAll_of_not_mem hk']

theorem map_keyOf (h : c.Sound db) (hp : c.Plain) {t : Table} (ht : t ∈ db) (k : Int)
    (row : Row) : { t with rows := t.rows.map fun r => if t.keyOf r == [.int k] then row else r } =
      t.put k row := by
  have hcond : ∀ r, (t.keyOf r == [.int k]) = (Row.get r "id" == .int k) := by
    intro r
    rw [h.keyOf hp ht]
    change ((Row.get r "id" == .int k) && true) = _
    simp
  simp only [hcond]
  rfl

/-- A database with a row that is written is sound if the cells that are written fit. -/
theorem update (h : c.Sound db) (hp : c.Plain) {name : String} {k : Int} {cells : Row}
    (hupd : db.update name [.int k] cells = .ok db')
    (hfit : ∀ t, db.table name = .ok t → c.Fits db t cells) :
    c.Sound db' ∧ ∃ old new, db.row? name k = some old ∧
      (∀ name' k', db'.row? name' k' =
        if name' = name ∧ k' = k then some new else db.row? name' k') ∧
      ∀ t, db.table name = .ok t → ∀ x ∈ t.columns,
        (x.name ∉ Row.names cells → Row.get new x.name = Row.get old x.name) ∧
          (x.name ∈ Row.names cells → x.Stores (Row.get cells x.name) (Row.get new x.name)) := by
  obtain ⟨t, stored, old, ht, hs, hold, hcheck, rfl⟩ := Database.update_eq_ok hupd
  obtain ⟨htmem, -⟩ := Database.table_mem ht
  rw [h.find? hp ht] at hold
  obtain ⟨t', ht', hmem, hk⟩ := h.row?_eq_some.1 hold
  obtain rfl := Except.ok.inj (ht.symm.trans ht')
  obtain ⟨hid, hrow⟩ := h.soundRow_setAll hp htmem hmem (hfit t ht) hs hcheck
  rw [h.map_keyOf hp htmem]
  have hrows := h.row?_put ht hold (hid.trans hk)
  have hgrow : ∀ name' k', (db.row? name' k').isSome = true →
      ((db.replace (t.put k (Row.setAll old stored))).row? name' k').isSome = true := by
    intro name' k' hsome
    rw [hrows]
    split
    · rfl
    · exact hsome
  refine ⟨⟨h.tables_replace hp htmem rfl rfl, fun u hu r hr => ?_, fun u hu => ?_⟩, old,
    Row.setAll old stored, hold, hrows, fun t' ht' x hx => ?_⟩
  · rcases Database.mem_replace hu with rfl | ⟨hu, -⟩
    · obtain ⟨r', hr', rfl⟩ := List.mem_map.1 hr
      split
      · exact hrow.mono rfl rfl hgrow
      · exact (h.row t htmem r' hr').mono rfl rfl hgrow
    · exact (h.row u hu r hr).mono rfl rfl hgrow
  · rcases Database.mem_replace hu with rfl | ⟨hu, -⟩
    · refine List.pairwise_map.2 ((h.distinct t htmem).imp_of_mem fun {a b} ha hb hab => ?_)
      have hsame : ∀ r ∈ t.rows, Row.get (if (Row.get r "id" == .int k) = true
          then Row.setAll old stored else r) "id" = Row.get r "id" := by
        intro r hr
        obtain ⟨j, hj, -⟩ := (h.row t htmem r hr).key
        split
        · next hjk =>
          rw [hj, Value.int_beq, decide_eq_true_eq] at hjk
          rw [hid, hk, hj, hjk]
        · rfl
      rw [hsame a ha, hsame b hb]
      exact hab
    · exact h.distinct u hu
  · obtain rfl := Except.ok.inj (ht.symm.trans ht')
    obtain ⟨hnames, hnodup, -⟩ := Table.storeCells_eq_ok (h.column_names hp htmem) hs
    refine ⟨fun hnot => Row.get_setAll_of_not_mem fun h' => hnot ((hnames _).1 h').2,
      fun hcells => ?_⟩
    obtain ⟨hstored, hst⟩ := h.stores_of_fits hp htmem (hfit t ht) hs hx hcells
    have hold : x.name ∈ Row.names old := by
      rw [(h.row t htmem old hmem).names]
      exact List.mem_map_of_mem hx
    rwa [Row.get_setAll_of_mem hnodup hold hstored]

end Sound

end Catalog

/-! ## Deleting -/

/-- A table without the row of a number. -/
def Table.without (t : Table) (k : Int) : Table :=
  { t with rows := t.rows.filter fun r => !(Row.get r "id" == .int k) }

namespace Catalog

variable {c : Catalog} {db db' : Database}

namespace Sound

/-- The rows of a database without the row of a number. -/
theorem row?_without (h : c.Sound db) {name : String} {t : Table} (ht : db.table name = .ok t)
    (k : Int) (name' : String) (k' : Int) : (db.replace (t.without k)).row? name' k' =
      if name' = name ∧ k' = k then none else db.row? name' k' := by
  obtain ⟨htmem, rfl⟩ := Database.table_mem ht
  rw [Database.row?_replace (show db.table (t.without k).name = .ok t from ht)]
  by_cases hn : name' = t.name
  · subst hn
    simp only [Table.without, if_true, true_and, Database.row?_eq ht]
    have hkeys := fun r hr => (h.row t htmem r hr).key
    generalize t.rows = rs at hkeys ⊢
    induction rs with
    | nil => simp
    | cons r rs ih =>
      obtain ⟨j, hj, -⟩ := hkeys r List.mem_cons_self
      have hrs := ih fun r hr => hkeys r (List.mem_cons_of_mem _ hr)
      rw [List.filter_cons, List.find?_cons, hj, Value.int_beq, Value.int_beq]
      by_cases hjk : j = k
      · subst hjk
        by_cases hk : k' = j
        · simp [hk]
        · have hne : ¬j = k' := fun h => hk h.symm
          simp [hk, hne, hrs]
      · rw [decide_eq_false hjk, Bool.not_false, if_pos rfl, List.find?_cons, hj, Value.int_beq,
          hrs]
        by_cases hk : j = k'
        · subst hk
          simp [hjk]
        · simp [hk]
  · simp [Table.without, hn]

/-- A database without a row is sound if no other row refers to it. -/
theorem delete (h : c.Sound db) (hp : c.Plain) {name : String} {k : Int}
    (hdel : db.delete name [.int k] = .ok db')
    (hfree : ∀ t ∈ db, ∀ r ∈ t.rows, (t.name = name → Row.get r "id" ≠ .int k) →
      ∀ x ∈ t.columns, ∀ y ∈ x.refersTo, y.1 = name → Row.get r x.name ≠ .int k) :
    c.Sound db' ∧ ∀ name' k', db'.row? name' k' =
      if name' = name ∧ k' = k then none else db.row? name' k' := by
  obtain ⟨t, ht, hdel⟩ := bind_eq_ok.1 hdel
  cases pure_eq_ok.1 hdel
  obtain ⟨htmem, hname⟩ := Database.table_mem ht
  have hwithout : t.delete [.int k] = t.without k := by
    have hcond : ∀ r, (t.keyOf r != [.int k]) = !(Row.get r "id" == .int k) := by
      intro r
      rw [h.keyOf hp htmem, bne]
      congr 1
      change ((Row.get r "id" == .int k) && true) = _
      simp
    simp only [Table.delete, Table.without, hcond]
  rw [hwithout]
  have hrows := h.row?_without ht k
  have hsound : ∀ u ∈ db, ∀ r ∈ u.rows, (u.name = name → Row.get r "id" ≠ .int k) →
      c.SoundRow (db.replace (t.without k)) u r := by
    intro u hu r hr hother
    have hrow := h.row u hu r hr
    refine { hrow with reference := fun x hx y hy => ?_ }
    refine (hrow.reference x hx y hy).imp id fun ⟨j, hj, hsome⟩ => ⟨j, hj, ?_⟩
    rw [hrows, if_neg]
    · exact hsome
    · rintro ⟨hy1, rfl⟩
      exact hfree u hu r hr hother x hx y hy hy1 hj
  refine ⟨⟨h.tables_replace hp htmem rfl rfl, fun u hu r hr => ?_, fun u hu => ?_⟩, hrows⟩
  · rcases Database.mem_replace hu with rfl | ⟨hu, hne⟩
    · obtain ⟨hr, hk⟩ := List.mem_filter.1 hr
      have hother : t.name = name → Row.get r "id" ≠ .int k := by
        intro _ heq
        simp [heq] at hk
      exact (hsound t htmem r hr hother).mono rfl rfl fun _ _ h => h
    · exact hsound u hu r hr fun heq => absurd (heq.trans hname.symm) hne
  · rcases Database.mem_replace hu with rfl | ⟨hu, -⟩
    · exact (h.distinct t htmem).sublist List.filter_sublist
    · exact h.distinct u hu

end Sound

end Catalog

end Hypermedia
