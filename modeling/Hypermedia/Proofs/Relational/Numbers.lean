import Hypermedia.Proofs.Relational.Writing

/-!
# Cells by number

What the tables of a sound database have in their columns under the numbers of their rows
(`Cells`), together with the numbers themselves, is all that the database has
(`Catalog.Sound.eq_of_cells`). Writing cells of a row leaves the numbers and all other cells
(`Catalog.Sound.numbers_update`, `Catalog.Sound.cells_update`).
-/

namespace Hypermedia

/-- What the tables have in the columns of their rows, by number. -/
abbrev Cells := String → String → Int → Value

namespace Database

/-- The cells of a database; nothing where there is no row. -/
def cells (D : Database) : Cells := fun table column k =>
  ((D.row? table k).map (Row.get · column)).getD .null

/-- The cells of a row. -/
theorem cells_eq {D : Database} {table : String} {k : Int} {row : Row}
    (h : D.row? table k = some row) (column : String) :
    D.cells table column k = Row.get row column := by
  simp [cells, h]

/-- The numbers of the rows, table by table. -/
def numbers (D : Database) : List (List Value) := D.map fun t => t.rows.map (Row.get · "id")

end Database

namespace Catalog.Sound

variable {c : Catalog} {D D' : Database}

/-- Writing cells other than the number gives a row its number and the other cells again. -/
theorem exists_put (h : c.Sound D) (hp : c.Plain) {name : String} {k : Int} {cells : Row}
    (hupd : D.update name [.int k] cells = .ok D') (hkey : "id" ∉ Row.names cells) :
    ∃ t old new, D.table name = .ok t ∧ D.row? name k = some old ∧ Row.get new "id" = .int k ∧
      (∀ column ∉ Row.names cells, Row.get new column = Row.get old column) ∧
        D' = D.replace (t.put k new) := by
  obtain ⟨t, stored, old, ht, hs, hold, -, rfl⟩ := Database.update_eq_ok hupd
  obtain ⟨htmem, -⟩ := Database.table_mem ht
  rw [h.find? hp ht] at hold
  obtain ⟨-, -, -, hid⟩ := h.row?_eq_some.1 hold
  obtain ⟨hnames, -⟩ := Table.storeCells_eq_ok (h.column_names hp htmem) hs
  have hother : ∀ column ∉ Row.names cells,
      Row.get (Row.setAll old stored) column = Row.get old column := fun column hno =>
    Row.get_setAll_of_not_mem fun hmem => hno ((hnames _).1 hmem).2
  refine ⟨t, old, Row.setAll old stored, ht, hold, (hother _ hkey).trans hid, hother, ?_⟩
  rw [h.map_keyOf hp htmem]

/-- Writing cells of a row leaves the numbers of all rows. -/
theorem numbers_update (h : c.Sound D) (hp : c.Plain) {name : String} {k : Int} {cells : Row}
    (hupd : D.update name [.int k] cells = .ok D') (hkey : "id" ∉ Row.names cells) :
    D'.numbers = D.numbers := by
  obtain ⟨t, old, new, ht, -, hnew, -, rfl⟩ := h.exists_put hp hupd hkey
  obtain ⟨htmem, -⟩ := Database.table_mem ht
  refine Database.map_replace _ _ fun u hu hname => ?_
  obtain rfl : u = t := Except.ok.inj ((Database.table_eq_ok (h.names_nodup hp) hu).symm.trans
    (hname ▸ Database.table_eq_ok (h.names_nodup hp) htmem))
  change (u.rows.map _).map _ = _
  rw [List.map_map]
  refine List.map_congr_left fun row hrow => ?_
  obtain ⟨j, hj, -⟩ := (h.row u hu row hrow).key
  by_cases hjk : j = k
  · simp [hj, hjk, hnew]
  · simp [hj, hjk]

/-- Writing cells of a row leaves all other cells. -/
theorem cells_update (h : c.Sound D) (hp : c.Plain) {name : String} {k : Int} {cells : Row}
    (hupd : D.update name [.int k] cells = .ok D') (hkey : "id" ∉ Row.names cells)
    {table column : String} {j : Int}
    (hne : ¬(table = name ∧ j = k ∧ column ∈ Row.names cells)) :
    D'.cells table column j = D.cells table column j := by
  obtain ⟨t, old, new, ht, hold, hnew, hother, rfl⟩ := h.exists_put hp hupd hkey
  rw [Database.cells, h.row?_put ht hold hnew]
  split
  · next hrow =>
    obtain ⟨rfl, rfl⟩ := hrow
    rw [Database.cells_eq hold]
    exact hother column fun hmem => hne ⟨rfl, rfl, hmem⟩
  · rfl

/-- A sound database is told by its numbers and its cells. -/
theorem eq_of_cells (h : c.Sound D) (h' : c.Sound D') (hp : c.Plain)
    (hnumbers : D.numbers = D'.numbers) (hcells : D.cells = D'.cells) : D = D' := by
  refine List.ext_getElem ?_ fun i hi hi' => ?_
  · simpa [Database.numbers] using congrArg List.length hnumbers
  have hemptied : D[i].emptied = D'[i].emptied := by
    have hget := congrArg (·[i]?) (h.tables.trans h'.tables.symm)
    simpa [hi, hi'] using hget
  have hids : D[i].rows.map (Row.get · "id") = D'[i].rows.map (Row.get · "id") := by
    have hget := congrArg (·[i]?) hnumbers
    simpa [Database.numbers, hi, hi'] using hget
  generalize ht : D[i] = t at hemptied hids
  generalize ht' : D'[i] = t' at hemptied hids
  have hmem : t ∈ D := ht ▸ List.getElem_mem hi
  have hmem' : t' ∈ D' := ht' ▸ List.getElem_mem hi'
  have hname : t.name = t'.name := show t.emptied.name = t'.emptied.name from hemptied ▸ rfl
  have hcolumns : t.columns = t'.columns :=
    show t.emptied.columns = t'.emptied.columns from hemptied ▸ rfl
  suffices hrows : t.rows = t'.rows by
    have hself : ∀ u : Table, { u.emptied with rows := u.rows } = u := fun _ => rfl
    rw [← hself t, ← hself t', hemptied, hrows]
  refine List.ext_getElem ?_ fun j hj hj' => ?_
  · simpa using congrArg List.length hids
  have hid : Row.get t.rows[j] "id" = Row.get t'.rows[j] "id" := by
    have hget := congrArg (·[j]?) hids
    simpa [hj, hj'] using hget
  have hrow := h.row t hmem _ (List.getElem_mem hj)
  have hrow' := h'.row t' hmem' _ (List.getElem_mem hj')
  obtain ⟨k, hk, -⟩ := hrow.key
  have hfound := h.row?_eq_some.2 ⟨t, Database.table_eq_ok (h.names_nodup hp) hmem,
    List.getElem_mem hj, hk⟩
  have hfound' := h'.row?_eq_some.2 ⟨t', Database.table_eq_ok (h'.names_nodup hp) hmem',
    List.getElem_mem hj', hid ▸ hk⟩
  refine Row.eq_of_get ?_ ?_ fun name _ => ?_
  · rw [hrow.names, hrow'.names, Table.names, Table.names, hcolumns]
  · exact hrow.names ▸ h.column_names hp hmem
  · rw [← Database.cells_eq hfound, hcells, hname, Database.cells_eq hfound']

end Catalog.Sound

end Hypermedia
