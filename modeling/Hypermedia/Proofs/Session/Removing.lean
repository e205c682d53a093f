import Hypermedia.Proofs.Session.Committing

/-!
# Removing records

A record is removed together with all references to it, or it stays and nothing is changed
(`Act.ends_destroy`). The rows that refer to it are those of the members of its links, which
are read before the deletion; each of them is emptied when its row is written. Nothing else is
written, so no new reference appears, and all other cells stay as they are (`Catalog.Fades`).
-/

namespace Hypermedia

/-- A link of a record was read. -/
def Session.HasRead (s : Session) (r : Ref) (l : Link) : Prop :=
  ∀ e ∈ s.entries, e.ref = r → ∃ before now, e.linkState l.name = .read before now

namespace Catalog

/-- No row refers to the row of a number in a table, apart from that row itself. -/
def Unreferred (c : Catalog) (db : Database) (name : String) (k : Int) : Prop :=
  ∀ t ∈ c.tables, ∀ x ∈ t.columns, ∀ y ∈ x.refersTo, y.1 = name → ∀ j row,
    db.row? t.name j = some row → ¬(t.name = name ∧ j = k) → Row.get row x.name ≠ .int k

/-- Every row is one of another database, with the same cells or with nothing in those that
referred to the row of a number in a table. -/
def Fades (c : Catalog) (root : String) (k : Int) (D db : Database) : Prop :=
  ∀ t ∈ c.tables, ∀ j row, db.row? t.name j = some row → ∃ row₀, D.row? t.name j = some row₀ ∧
    ∀ x ∈ t.columns, Row.get row x.name = Row.get row₀ x.name ∨
      x.refersTo = some (root, "id") ∧ Row.get row₀ x.name = .int k ∧ Row.get row x.name = .null

/-- A sound database that lacks at most the row of a number in a table. All other rows of the one
before are in it, and nothing but references to the row was emptied in them. -/
structure Lacks (c : Catalog) (root : String) (k : Int) (D db : Database) : Prop where
  sound : c.Sound db
  fades : c.Fades root k D db
  rest : ∀ name j, (D.row? name j).isSome = true → ¬(name = root ∧ j = k) →
    (db.row? name j).isSome = true

/-- A sound database that lacks exactly the row of a number in a table. -/
structure Loses (c : Catalog) (root : String) (k : Int) (D db : Database) : Prop extends
    c.Lacks root k D db where
  gone : db.row? root k = none

variable {c : Catalog} {D db db' : Database} {r : Ref} {root : String} {k : Int} {s₀ s : Session}

theorem Fades.refl (c : Catalog) (root : String) (k : Int) (D : Database) : c.Fades root k D D :=
  fun _ _ _ row hrow => ⟨row, hrow, fun _ _ => Or.inl rfl⟩

theorem Sound.delete_unreferred (h : c.Sound db) (hp : c.Plain) {name : String} {k : Int}
    (hdel : db.delete name [.int k] = .ok db') (hfree : c.Unreferred db name k) :
    c.Sound db' ∧ c.Unreferred db' name k ∧ ∀ name' j, db'.row? name' j =
      if name' = name ∧ j = k then none else db.row? name' j := by
  obtain ⟨hsound, hrows⟩ := h.delete hp hdel fun t ht r hr hother x hx y hy hname => by
    obtain ⟨j, hj, -⟩ := (h.row t ht r hr).key
    have hrow := h.row?_eq_some.2 ⟨t, Database.table_eq_ok (h.names_nodup hp) ht, hr, hj⟩
    refine hfree t.emptied (h.emptied_mem ht) x hx y hy hname j r hrow fun ⟨htname, hjk⟩ => ?_
    exact hother htname (hjk ▸ hj)
  have hkept : ∀ name' j row, db'.row? name' j = some row → db.row? name' j = some row := by
    intro name' j row hrow
    rw [hrows] at hrow
    split at hrow
    · cases hrow
    · exact hrow
  exact ⟨hsound, fun t ht x hx y hy hname j row hrow hne =>
    hfree t ht x hx y hy hname j row (hkept _ _ _ hrow) hne, hrows⟩

/-- A row to which no other one refers may be deleted. -/
theorem Lacks.delete {root : String} {k : Int} (h : c.Lacks root k D db) (hp : c.Plain)
    (hdel : db.delete root [.int k] = .ok db') (hfree : c.Unreferred db root k) :
    c.Lacks root k D db' := by
  obtain ⟨hsound, -, hrows⟩ := h.sound.delete_unreferred hp hdel hfree
  refine ⟨hsound, fun t ht j row hrow => h.fades t ht j row ?_, fun name j hsome hne => ?_⟩
  · rw [hrows] at hrow
    split at hrow
    · cases hrow
    · exact hrow
  · rw [hrows, if_neg hne]
    exact h.rest name j hsome hne

/-- The columns that may be empty and refer to records: the table, the column, and the table and
the column that it refers to. -/
def optionalReferences (c : Catalog) : List (String × String × String × String) :=
  c.tables.flatMap fun t => t.columns.filterMap fun x =>
    if x.isNullable then x.refersTo.map fun y => (t.name, x.name, y) else none

/-- A row of a table without the references to the row of a number in another. -/
def unlinked (c : Catalog) (root : String) (k : Int) (name : String) (row : Row) : Row :=
  row.map fun x =>
    (x.1, if (name, x.1, root, "id") ∈ c.optionalReferences ∧ x.2 == .int k then .null else x.2)

theorem mem_optionalReferences (hp : c.Plain) {t : Table} (ht : t ∈ c.tables) {x : Column}
    (hx : x ∈ t.columns) {y : String × String} :
    (t.name, x.name, y) ∈ c.optionalReferences ↔ x.isNullable = true ∧ x.refersTo = some y := by
  simp only [optionalReferences, List.mem_flatMap, List.mem_filterMap]
  constructor
  · rintro ⟨u, hu, z, hz, hy⟩
    split at hy
    · next hnull =>
      obtain ⟨y', hy', heq⟩ := Option.map_eq_some_iff.1 hy
      simp only [Prod.mk.injEq] at heq
      obtain ⟨htable, hcolumn, rfl⟩ := heq
      obtain rfl := List.inj_on_of_nodup_map hp.table_names hu ht htable
      obtain rfl := List.inj_on_of_nodup_map (hp.column_names u hu) hz hx hcolumn
      exact ⟨hnull, hy'⟩
    · cases hy
  · rintro ⟨hnull, hy⟩
    exact ⟨t, ht, x, hx, by simp [hnull, hy]⟩

/-- A row that is left is one of before without its references to the row that is lost. -/
theorem Loses.exists_unlinked (h : c.Loses root k D db) (hp : c.Plain) (hD : c.Sound D)
    {name : String} {j : Int} {row : Row} (hrow : db.row? name j = some row) :
    ∃ row₀, D.row? name j = some row₀ ∧ row = c.unlinked root k name row₀ := by
  obtain ⟨t, ht, hmem, -⟩ := h.sound.row?_eq_some.1 hrow
  obtain ⟨htdb, rfl⟩ := Database.table_mem ht
  have htable := h.sound.emptied_mem htdb
  have hsound := h.sound.row t htdb row hmem
  obtain ⟨row₀, hrow₀, hfades⟩ := h.fades t.emptied htable j row hrow
  obtain ⟨t₀, ht₀, hmem₀, -⟩ := hD.row?_eq_some.1 hrow₀
  obtain ⟨ht₀D, hname⟩ := Database.table_mem ht₀
  have hemptied : t₀.emptied = t.emptied :=
    List.inj_on_of_nodup_map hp.table_names (hD.emptied_mem ht₀D) htable hname
  have hnames : Row.names row₀ = t.names := (hD.row t₀ ht₀D row₀ hmem₀).names.trans
    (congrArg (fun u => u.columns.map Column.name) hemptied)
  have hn := h.sound.column_names hp htdb
  refine ⟨row₀, hrow₀, Row.eq_of_get ?_ (hsound.names ▸ hn) fun n hmem => ?_⟩
  · rw [hsound.names, ← hnames]
    simp [Row.names, unlinked]
  obtain ⟨x, hx, rfl⟩ := List.mem_map.1 (hsound.names ▸ hmem)
  have hx₀ : (x.name, Row.get row₀ x.name) ∈ row₀ :=
    Row.get_mem (by rw [hnames]; exact List.mem_map_of_mem hx)
  rw [unlinked, Row.get_map (show (Row.names row₀).Nodup from hnames ▸ hn) hx₀]
  rcases hfades x hx with hsame | ⟨hto, hk, hnull⟩
  · -- The number is not there any more, so nothing refers to it.
    rw [if_neg, hsame]
    rintro ⟨href, hk⟩
    have hto := ((mem_optionalReferences hp htable hx).1 href).2
    rcases hsound.reference x hx _ hto with hnull | ⟨i, hi, hsome⟩
    · simp [← hsame, hnull] at hk
    · obtain rfl : i = k := by simpa [← hsame, hi] using hk
      rw [h.gone] at hsome
      cases hsome
  · have hnullable : x.isNullable = true := by
      rcases hsound.cell x hx with hcell | hkeeps
      · exact hcell.2
      · rw [hnull] at hkeeps
        cases htype : x.type <;> rw [htype] at hkeeps <;> cases hkeeps
    rw [if_pos ⟨(mem_optionalReferences hp htable hx).2 ⟨hnullable, hto⟩, by simp [hk]⟩, hnull]

/-- Where a row is lost all others stay as they are, but for the references to it. -/
theorem Loses.row?_eq (h : c.Loses root k D db) (hp : c.Plain) (hD : c.Sound D) (name : String)
    (j : Int) : db.row? name j =
      if name = root ∧ j = k then none else (D.row? name j).map (c.unlinked root k name) := by
  by_cases hgone : name = root ∧ j = k
  · rw [if_pos hgone, hgone.1, hgone.2, h.gone]
  rw [if_neg hgone]
  cases hrow : db.row? name j with
  | some row =>
    obtain ⟨row₀, hrow₀, rfl⟩ := h.exists_unlinked hp hD hrow
    rw [hrow₀, Option.map_some]
  | none =>
    have hno : D.row? name j = none := by
      by_contra hsome
      have hleft := h.rest name j (Option.isSome_iff_ne_none.2 hsome) hgone
      rw [hrow] at hleft
      cases hleft
    rw [hno, Option.map_none]

/-- A quiet session in which the record of a number in a table, and no other, is to be deleted. -/
structure Dooming (c : Catalog) (D : Database) (r : Ref) (root : String) (k : Int) (s : Session) :
    Prop extends c.Quiet D s where
  only : ∀ e ∈ s.entries, e.isDoomed = true → e.ref = r
  known : ∃ e ∈ s.entries, e.ref = r ∧ e.isDoomed = true ∧ e.isStored = true ∧
    e.model.rootTable = root ∧ e.key = [.int k]

/-! ## What is written before a deletion -/

/-- What a record that is to be deleted has among those that refer to it has its number in the
column. -/
theorem Dooming.shown_of_letsGo (hp : c.Plain) (hD : c.Sound D) {r : Ref} {root : String} {k : Int}
    (hs : c.Dooming D r root k s) {x : Ref} {column : String} (h : s.LetsGo x column) :
    ∃ e ∈ s.entries, e.ref = x ∧ e.model.refers column root = true ∧
      e.shown D column = .int k := by
  obtain ⟨owner, ho, hdoomed, l, hmem, hx⟩ := h
  obtain ⟨e', he', href', -, hst, rfl, hk⟩ := hs.known
  obtain rfl := Session.eq_of_ref_eq hs.distinct ho he'
    ((hs.only owner ho hdoomed).trans href'.symm)
  have hdraft := hs.draft owner ho
  obtain ⟨hl, hc⟩ := mem_memberLinks.1 hmem
  obtain ⟨t, ht, hspec⟩ := hp.linkSpec hdraft.model hl
  have hclean : c.Clean D s owner := (hs.clean owner ho).resolve_left fun hfresh => by
    simp [Entry.isStored, hfresh] at hst
  rcases hclean.linkState l.name with hno | ⟨xs, hxs, hlinked⟩
  · simp [hno, LinkState.involved, LinkState.gained, LinkState.current, LinkState.dropped,
      LinkState.earlier] at hx
  have hx' : x ∈ xs := by
    simpa [LinkState.refs, hxs] using LinkState.mem_refs_of_involved hx
  obtain ⟨row, hrow, j, hid, e, he, rfl, -, hroot, hkey⟩ :=
    exists_of_forall₂_left (hlinked l (hp.link?_eq hdraft.model hl) t ht) hx'
  have hrefers := (hp.refersTo_of_memberLink hdraft hmem (LinkState.mem_refs_of_involved hx)
    ((hs.draft e he).model?_eq hp)).2
  refine ⟨e, he, rfl, hrefers, ?_⟩
  rw [Database.linkedRows, hc] at hrow
  obtain ⟨hrow, hcell⟩ := List.mem_filter.1 (Model.mem_inKeyOrder.1 hrow)
  obtain ⟨u, hu, hmem⟩ := Database.mem_rowsOf.1 hrow
  have hshown := Entry.shown_eq hkey (hroot ▸ hD.row?_eq_some.2 ⟨u, hu, hmem, hid⟩) column
  rw [Act.keyValue, hk, List.headD_cons, ← hshown] at hcell
  obtain ⟨y, hy, hto⟩ := (Option.any_eq_true _ _).1 hrefers
  have hnone := (hs.draft e he).given?_eq_none hp hy (by simp_all)
  have hsame : e.cell D column = e.shown D column := by simp [Entry.cell, Entry.shown, hnone]
  rcases hsame ▸ (hs.draft e he).reference_cell hp hD hrefers with hnull | ⟨i, hi, -⟩
  · simp [hnull] at hcell
  · rw [hi, Value.int_beq, decide_eq_true_eq] at hcell
    exact hcell ▸ hi

/-- A writing that only empties cells that refer to a record that is to be deleted. -/
structure Fading (c : Catalog) (root : String) (k : Int) (s₀ s : Session) : Prop extends
    c.Saving s₀ s where
  keyed : ∀ e₀ ∈ s₀.entries, ∀ e ∈ s.entries, e.ref = e₀.ref → e.key = e₀.key
  nulls : ∀ e ∈ s.entries, e.isMember = true → ∀ v ∈ e.values, v.2 = .null ∧
    e.model.refers v.1 root = true ∧ e.shown s₀.db v.1 = .int k
  fades : c.Fades root k s₀.db s.db
  kept : ∀ name j, (s₀.db.row? name j).isSome = true → (s.db.row? name j).isSome = true

theorem Dooming.fading_self (hs : c.Dooming D r root k s) (hD : c.Sound D) :
    c.Fading root k s s := by
  refine ⟨hs.toDrafts.saving hD, fun e₀ he₀ e he href => ?_, fun e he hm v hv => ?_,
    .refl c root k _, fun _ _ h => h⟩
  · rw [Session.eq_of_ref_eq hs.distinct he he₀ href]
  · rcases hs.clean e he with hfresh | hclean
    · simp [Entry.isMember, hfresh] at hm
    · simp [hclean.values] at hv

theorem Dooming.writing_fading (hp : c.Plain) (hD : c.Sound D) (hs₀ : c.Dooming D r root k s₀) :
    c.Writing s₀ (c.Fading root k s₀) where
  saving := Fading.toSaving
  refer := by
    intro s e column v h he hmember hv hnull
    obtain ⟨rfl, hgo⟩ := hnull.resolve_right fun hno => hno hs₀.calm
    have hkeys : ∀ e₀ ∈ s₀.entries, ∀ e' ∈ (s.modify e.ref fun e => e.setValue column
        .null).entries, e'.ref = e₀.ref → e'.key = e₀.key := by
      intro e₀ he₀ e' he' href
      obtain ⟨e₁, he₁, ⟨-, rfl⟩ | ⟨-, rfl⟩⟩ := Session.mem_modify he'
      · exact h.keyed e₀ he₀ e₁ he₁ href
      · exact h.keyed e₀ he₀ _ he₁ href
    refine ⟨h.toSaving.refer hs₀.toDrafts he hmember hv, hkeys, fun e' he' hmember' w hw => ?_,
      h.fades, h.kept⟩
    obtain ⟨e₁, he₁, ⟨href₁, rfl⟩ | ⟨-, rfl⟩⟩ := Session.mem_modify he'
    · rcases List.mem_append.1 hw with hw | hw
      · exact h.nulls e₁ he₁ hmember' w (List.mem_filter.1 hw).1
      · obtain rfl := h.eq_of_ref hs₀.toDrafts he he₁ href₁
        obtain ⟨e₀, he₀, href₀, hrefers, hshown⟩ := hs₀.shown_of_letsGo hp hD hgo
        have hmodel := Entry.model_of_frame (h.frame_eq hs₀.toDrafts he he₀ href₀.symm)
        rw [List.mem_singleton.1 hw]
        refine ⟨rfl, hmodel ▸ hrefers, ?_⟩
        rw [← hshown, hs₀.db]
        simp [Entry.shown, Entry.row?, h.keyed e₀ he₀ e₁ he href₀.symm, hmodel, Entry.setValue]
    · exact h.nulls _ he₁ hmember' w hw
  insert := by
    intro s e db' row h he hpending _
    obtain ⟨e₀, he₀, hframe⟩ := h.exists_frame he
    have hphase := Entry.phase_of_frame hframe
    have hpending₀ : e₀.isPending = true := by rwa [Entry.isPending, ← hphase]
    have hmember : e₀.isMember = true := by
      cases hph : e₀.phase <;> simp_all [Entry.isPending, Entry.isMember]
    simp [(hs₀.calm e₀ he₀ hmember).1] at hpending₀
  update := by
    intro s e i row db' h he hst hi hrow hupd
    obtain ⟨⟨new, hupdated⟩, hsaving⟩ := h.toSaving.update hp hs₀.toDrafts he hst hi hrow hupd
    have hmember : e.isMember = true := by
      cases hph : e.phase <;> simp_all [Entry.isStored, Entry.isMember]
    -- The record keeps its key.
    have hsame : ∀ e' ∈ (({ s with db := db' } : Session).modify e.ref fun e' => { e' with
        key := e'.model.keyNames.map fun k => (e'.given? k).getD (Row.get row k) }).entries,
        ∃ e₁ ∈ s.entries, e' = e₁ := by
      intro e' he'
      obtain ⟨e₁, he₁, ⟨href₁, rfl⟩ | ⟨-, rfl⟩⟩ := Session.mem_modify he'
      · obtain rfl := h.eq_of_ref hs₀.toDrafts he he₁ href₁
        exact ⟨e₁, he₁, by rw [hupdated.key]⟩
      · exact ⟨_, he₁, rfl⟩
    refine ⟨hsaving, fun e₀ he₀ e' he' href => ?_, fun e' he' hmember' w hw => ?_,
      fun u hu j row' hrow' => ?_, fun name j hsome => ?_⟩
    · obtain ⟨e₁, he₁, rfl⟩ := hsame e' he'
      exact h.keyed e₀ he₀ _ he₁ href
    · obtain ⟨e₁, he₁, rfl⟩ := hsame e' he'
      exact h.nulls _ he₁ hmember' w hw
    · have hrow' : db'.row? u.name j = some row' := hrow'
      by_cases hit : u.name = e.model.rootTable ∧ j = i
      · obtain ⟨hname, rfl⟩ := hit
        rw [hname, hupdated.row] at hrow'
        obtain rfl := Option.some.inj hrow'
        obtain ⟨row₀, hrow₀, hfade⟩ := h.fades u hu j row (hname ▸ hrow)
        refine ⟨row₀, hrow₀, fun x hx => ?_⟩
        obtain ⟨t, ht, htmem, htname, -⟩ := h.sound.table hp (h.saved e he).model
        obtain rfl : u = t.emptied := List.inj_on_of_nodup_map hp.table_names hu
          (h.sound.emptied_mem htmem) (hname.trans htname.symm)
        by_cases hmem : x.name ∈ Row.names (Act.changedCells e e.model.rootTable row)
        · obtain ⟨hnull, hrefers, hshown⟩ :=
            h.nulls e he hmember _ (mem_of_given? (given?_of_changedCells hmem))
          obtain ⟨y, hy, hto⟩ := (Option.any_eq_true _ _).1 hrefers
          have hshape := h.sound.shape_eq hp (h.saved e he).model ht hy hx rfl
          simp only [Column.shape, Prod.mk.injEq] at hshape
          refine Or.inr ⟨hshape.2.2.2.2.trans (by simpa using hto), ?_,
            ((hupdated.cells t ht x hx).2 hmem).null hnull⟩
          rw [← Entry.shown_eq hi (hname ▸ hrow₀), hshown]
        · rw [(hupdated.cells t ht x hx).1 hmem]
          exact hfade x hx
      · exact h.fades u hu j row' ((hupdated.others u.name j hit).symm.trans hrow')
    · change (db'.row? name j).isSome = true
      by_cases hit : name = e.model.rootTable ∧ j = i
      · rw [hit.1, hit.2, hupdated.row]
        rfl
      · rw [hupdated.others name j hit]
        exact h.kept name j hsome

/-! ## What is read before a deletion -/

theorem Dooming.reading (hp : c.Plain) (hD : c.Sound D) (r : Ref) (root : String) (k : Int) :
    c.Reading D (c.Dooming D r root k) where
  drafts := fun h => h.toDrafts
  receive := by
    intro s m n row h hnew hn hno
    refine ⟨(Quiet.reading hp hD).receive h.toQuiet hnew hn hno, fun e he hdoomed => ?_, ?_⟩
    · rcases List.mem_append.1 he with he | he
      · exact h.only e he hdoomed
      · rw [List.mem_singleton.1 he] at hdoomed
        cases hdoomed
    · exact h.known.imp fun e he => ⟨List.mem_append_left _ he.1, he.2⟩
  readLink := by
    intro s₀ s e₀ e l added removed stored h₀ hseen he₀ href₀ hmodel hphase hst h he hl hlinked
    refine ⟨(Quiet.reading hp hD).readLink h₀.toQuiet hseen he₀ href₀ hmodel hphase hst h.toQuiet he
      hl hlinked, fun e' he' hdoomed => ?_, ?_⟩
    · obtain ⟨e₁, he₁, ⟨-, rfl⟩ | ⟨-, rfl⟩⟩ := Session.mem_modify he'
      · exact h.only e₁ he₁ hdoomed
      · exact h.only _ he₁ hdoomed
    · obtain ⟨e₁, he₁, hmark⟩ := h.known
      refine ⟨_, List.mem_map_of_mem he₁, ?_⟩
      split <;> exact hmark

theorem Dooming.reading_hasRead (hp : c.Plain) (hD : c.Sound D) (r : Ref) (root : String)
    (k : Int) (l : Link) : c.Reading D fun s => c.Dooming D r root k s ∧ s.HasRead r l where
  drafts := fun h => h.1.toDrafts
  receive := by
    intro s m n row h hnew hn hno
    refine ⟨(Dooming.reading hp hD r root k).receive h.1 hnew hn hno, fun e he href => ?_⟩
    rcases List.mem_append.1 he with he | he
    · exact h.2 e he href
    · obtain ⟨e₁, he₁, href₁, -⟩ := h.1.known
      have hlt := h.1.numbers e₁ he₁
      rw [href₁, ← href, List.mem_singleton.1 he] at hlt
      exact absurd hlt (Nat.lt_irrefl _)
  readLink := by
    intro s₀ s e₀ e l' added removed stored h₀ hseen he₀ href₀ hmodel hphase hst h he hl hlinked
    refine ⟨(Dooming.reading hp hD r root k).readLink h₀.1 hseen he₀ href₀ hmodel hphase hst h.1 he
      hl hlinked, fun e' he' href => ?_⟩
    obtain ⟨e₁, he₁, ⟨-, rfl⟩ | ⟨-, rfl⟩⟩ := Session.mem_modify he'
    · by_cases hname : l.name = l'.name
      · rw [hname, Entry.linkState_setLink]
        exact ⟨_, _, rfl⟩
      · rw [Entry.linkState_setLink_of_ne _ hname]
        exact h.2 e₁ he₁ href
    · exact h.2 _ he₁ href

end Catalog

namespace Act

variable {c : Catalog} {D : Database} {H : Ref → Prop} {r : Ref} {root : String} {k : Int}
  {s : Session}

theorem reads_knowsReferred {I : Session → Prop} (hI : c.Reading D I) (hp : c.Plain)
    (hD : c.Sound D) (r : Ref) (l : Link) (column : String) :
    Reads I (knowsReferred c r l column) s (fun t _ => t = s) (s.known? r = none) := by
  refine (reads_entry r).bind ?_
  rintro e _ - - ⟨rfl, he⟩
  split
  · next x target hx _ =>
    refine ((reads_columnValue hI hp hD he (List.mem_of_find?_eq_some hx)).imp
      (fun _ _ _ _ h => h) False.elim).bind ?_
    rintro v _ - - ⟨rfl, -⟩
    exact reads_get.bind fun _ _ _ _ h => reads_pure fun _ => h.1
  · exact reads_pure fun _ => rfl

/-- A link of a known record is read without a fault, as far as its other end is known. -/
theorem reads_readKnown {I : Session → Prop} (hI : c.Reading D I) (hp : c.Plain) (hD : c.Sound D)
    {l : Link} (hl : c.Has r l) :
    Reads I (readKnown c r l) s (fun _ _ => True) (s.known? r = none) := by
  have hknown : ∀ b : Bool, Reads I (if b = true then do let _ ← readLink c r l; pure ()
      else pure () : Act Unit) s (fun _ _ => True) (s.known? r = none) := fun b =>
    reads_ite (fun _ => (reads_readLink hI hp hD hl).bind fun _ _ _ _ _ =>
      reads_pure fun _ => trivial) fun _ => reads_pure fun _ => trivial
  unfold readKnown
  dsimp only
  split
  · refine (reads_knowsReferred hI hp hD r l _).bind ?_
    rintro b _ - - rfl
    exact hknown b
  · exact hknown true

theorem keeps_readKnown {I : Session → Prop} (hI : c.Reading D I) (hp : c.Plain) (hD : c.Sound D)
    {l : Link} (hl : c.Has r l) : Keeps I (readKnown c r l) fun _ => True :=
  Reads.keeps (fun _ => reads_readKnown hI hp hD hl) fun _ _ _ _ _ h => h

/-- The members of a link are read. -/
theorem takes_readKnown (hp : c.Plain) (hD : c.Sound D) {l : Link} (hl : c.Has r l)
    {column : String} (hc : l.kind = .members column) :
    Takes (fun t => t.committed = D) (c.Dooming D r root k)
      (fun t => c.Dooming D r root k t ∧ t.HasRead r l) (readKnown c r l) := by
  intro s hs
  unfold readKnown
  rw [hc]
  dsimp only
  rw [pure_bind, if_pos rfl, ends_bind]
  refine (reads_readLink (Catalog.Dooming.reading hp hD r root k) hp hD hl hs).imp (fun _ t h => ?_)
    fun _ _ h => h.1.committed
  obtain ⟨ht, -, e, he, -, hst, before, now, rfl⟩ := h
  refine ⟨ht, fun e' he' href => ⟨before, now, ?_⟩⟩
  obtain ⟨hmem, href'⟩ := Session.known?_mem he
  obtain rfl : e' = e :=
    Session.eq_of_ref_eq ht.distinct he' hmem (href.trans href'.symm)
  exact hst

/-- The members of all links of a record that is to be deleted are read. -/
theorem ends_readMembers (hp : c.Plain) (hD : c.Sound D) (hs : c.Dooming D r root k s) {m : Model}
    (hm : c.model? r.model = some m) : Ends (readDoomed c) s
      (fun _ t => c.Dooming D r root k t ∧
        ∀ l ∈ m.links, ∀ column, l.kind = .members column → t.HasRead r l)
      fun _ t => t.committed = D := by
  have hlinks : ∀ e ∈ s.entries.filter Entry.isDoomed, e.ref = r ∧ e.model = m := by
    intro e he
    obtain ⟨he, hdoomed⟩ := List.mem_filter.1 he
    have href := hs.only e he hdoomed
    have hmodel := (hs.draft e he).model?_eq hp
    rw [href, hm] at hmodel
    exact ⟨href, (Option.some.inj hmodel).symm⟩
  have hread : ∀ {I : Session → Prop}, c.Reading D I → ∀ e ∈ s.entries.filter Entry.isDoomed,
      Keeps I (e.model.links.forM (readKnown c e.ref)) fun _ => True := by
    intro I hI e he
    obtain ⟨href, hmodel⟩ := hlinks e he
    refine keeps_forM fun l hl => keeps_readKnown hI hp hD ⟨m, href ▸ hm, hmodel ▸ hl⟩
  have hI := Catalog.Dooming.reading hp hD r root k
  have hbase : Ends (readDoomed c) s (fun _ t => c.Dooming D r root k t)
      fun _ t => t.committed = D := by
    unfold readDoomed
    rw [ends_bind, ends_get]
    exact (keeps_forM (hread hI) s hs).imp (fun _ _ h => h.1) fun _ _ h => h.committed
  have hall := ends_forall (hbase.imp (fun _ _ _ => trivial) fun _ _ h => h)
    (ι := { i : Link × String // i.1 ∈ m.links ∧ i.1.kind = .members i.2 })
    (Q := fun i _ t => t.HasRead r i.1.1) fun i => by
      obtain ⟨⟨l, column⟩, hl, hc⟩ := i
      have hJ := Catalog.Dooming.reading_hasRead hp hD r root k l
      obtain ⟨e, he, href, hdoomed, -⟩ := hs.known
      have hmem : e ∈ s.entries.filter Entry.isDoomed := List.mem_filter.2 ⟨he, hdoomed⟩
      have hmodel := (hlinks e hmem).2
      unfold readDoomed
      rw [ends_bind, ends_get]
      refine (takes_forM (C := fun t => t.committed = D) hmem
        (fun e he => (hread hI e he).takes fun _ h => h.committed)
        (fun e he => (hread hJ e he).takes fun _ h => h.1.committed) ?_ s hs).imp
          (fun _ _ h => h.2) fun _ _ h => h
      rw [href, hmodel]
      have hhas : ∀ l' ∈ m.links, c.Has r l' := fun l' hl' => ⟨m, hm, hl'⟩
      exact takes_forM hl
        (fun l' hl' => (keeps_readKnown hI hp hD (hhas l' hl')).takes fun _ h => h.committed)
        (fun l' hl' => (keeps_readKnown hJ hp hD (hhas l' hl')).takes fun _ h => h.1.committed)
        (takes_readKnown hp hD (hhas l hl) hc)
  refine (hbase.and hall).imp (fun _ t ⟨ht, hread⟩ => ⟨ht, fun l hl column hc => ?_⟩)
    fun _ _ h => h.1
  exact hread ⟨(l, column), hl, hc⟩

/-! ## Emptying references -/

theorem mem_involved_of_read {xs : List Ref} {x : Ref} (h : x ∈ xs) :
    x ∈ (LinkState.read (some xs) xs).involved := by
  refine List.mem_append_left _ (List.mem_append_right _ (List.mem_filter.2 ⟨h, ?_⟩))
  simpa [LinkState.earlier] using h

/-- To the links of a record that was only read nothing was added. -/
theorem gained_eq_nil {e : Entry} (he : c.Clean D s e) (name : String) :
    (e.linkState name).gained = [] := by
  rcases he.linkState name with h | ⟨xs, h, -⟩
  · simp [h, LinkState.gained, LinkState.current]
  · simp [h, LinkState.gained, LinkState.current, LinkState.earlier]

variable {s₀ : Session}

/-- The column is emptied through which a record refers to one that is deleted. -/
theorem takes_unrefer (hp : c.Plain) (hs₀ : c.Quiet D s₀) {e e₁ : Entry} (he : e ∈ s₀.entries)
    (hdoomed : e.isDoomed = true) (hmember : e.isMember = true) (he₁ : e₁ ∈ involvedRecords s₀)
    {l : Link} {column : String} (hl : l ∈ e.model.links) (hc : l.kind = .members column)
    (hx : e₁.ref ∈ (e.linkState l.name).involved) :
    Takes (fun t => t.committed = s₀.committed) (c.Saving s₀)
      (fun s => c.Saving s₀ s ∧ s.Shows e₁.ref column fun g _ => g = some .null)
      (unrefer (involvedRecords s₀) e₁.ref) := by
  have hes := fun e (he : e ∈ involvedRecords s₀) => mem_of_involvedRecords he
  have hdraft := hs₀.draft e he
  obtain ⟨t, ht, hspec⟩ := hp.linkSpec hdraft.model hl
  have hmem : (l, column) ∈ memberLinks e := Catalog.mem_memberLinks.2 ⟨hl, hc⟩
  have hown : e ∈ (involvedRecords s₀).filter Entry.isDoomed :=
    List.mem_filter.2 ⟨List.mem_filter.2 ⟨he, by simp [hdoomed, hmember]⟩, hdoomed⟩
  have hrefers := hp.refersTo_of_memberLink hdraft hmem (LinkState.mem_refs_of_involved hx)
    ((hs₀.draft e₁ (hes e₁ he₁).1).model?_eq hp)
  obtain ⟨x, hcolumn, -⟩ := (Option.any_eq_true _ _).1 hrefers.2
  have hI := hs₀.toDrafts.writing hp
  have hJ := hs₀.toDrafts.writing_shows (P := fun g _ => g = some .null) hp
    ((hs₀.draft e₁ (hes e₁ he₁).1).model?_eq hp) hcolumn
    (fun _ _ _ _ _ hv => congrArg some (hv.resolve_right fun hno => hno hs₀.calm))
    fun _ _ _ h _ => h
  have hlinks : ∀ {K : Session → Prop}, c.Writing s₀ K →
      ∀ owner ∈ (involvedRecords s₀).filter Entry.isDoomed, ∀ p ∈ memberLinks owner, ∀ b : Bool,
        Takes (fun t => t.committed = s₀.committed) K K
          (if !p.1.cascades && (owner.linkState p.1.name).involved.contains e₁.ref && b then
            refer e₁.ref p.2 .null else pure ()) := by
    intro K hK owner ho p hmem b
    exact (keeps_unreferLink hp hs₀.toDrafts hK hes he₁ ho hmem).takes
      fun _ h => (hK.saving h).committed
  refine takes_forM hown
    (fun owner ho => takes_forM_self fun p hmem => hlinks hI owner ho p hmem _)
    (fun owner ho => takes_forM_self fun p hmem => hlinks hJ owner ho p hmem _) ?_
  refine takes_forM hmem (fun p hmem => hlinks hI e hown p hmem _)
    (fun p hmem => hlinks hJ e hown p hmem _) fun s hs => ?_
  -- Nothing was added to the links of others.
  have helsewhere : ((involvedRecords s₀).any fun e => !e.isDoomed &&
      (memberLinks e).any fun p => p.2 == column && p.1.target == l.target &&
        (e.linkState p.1.name).gained.contains e₁.ref) = false := by
    refine List.any_eq_false.2 fun e' he' h => ?_
    obtain ⟨hmem', hmember'⟩ := hes e' he'
    rcases hs₀.clean e' hmem' with hfresh | hclean
    · simp [Entry.isMember, hfresh] at hmember'
    · simp [gained_eq_nil hclean] at h
  dsimp only
  rw [if_pos (Bool.and_eq_true_iff.2
    ⟨by simp [hspec.cascades, hx], congrArg Bool.not helsewhere⟩)]
  refine (ends_refer_null hp hs₀.toDrafts hI hes hs he₁ he hmem
    (LinkState.mem_refs_of_involved hx) (Or.inl ⟨e, he, hdoomed, l, hmem, hx⟩)).imp
      (fun _ t ht => ⟨ht.1, fun e' he' href _ => ?_⟩) fun _ _ h => h.committed
  exact ht.2 e' (href ▸ ht.1.known?_eq hs₀.toDrafts he')

/-- In the rows of the members of a record that is deleted the reference is emptied. -/
theorem ends_emptied (hp : c.Plain) (hD : c.Sound D) (hs₀ : c.Quiet D s₀) {e e₁ : Entry}
    (he : e ∈ s₀.entries) (hdoomed : e.isDoomed = true) (hmember : e.isMember = true)
    (he₁ : e₁ ∈ s₀.entries) (hst : e₁.isStored = true) (hkept : e₁.isDoomed = false) {l : Link}
    {column : String} (hl : l ∈ e.model.links) (hc : l.kind = .members column)
    (hx : e₁.ref ∈ (e.linkState l.name).involved) :
    Ends (c.rootTables.forM (saveTable (involvedRecords s₀))) s₀
      (fun _ t => t.Shows e₁.ref column fun _ u => u = .null)
      fun _ t => t.committed = s₀.committed := by
  have hes := fun e (he : e ∈ involvedRecords s₀) => mem_of_involvedRecords he
  have hdraft := hs₀.draft e he
  have hmem : (l, column) ∈ memberLinks e := Catalog.mem_memberLinks.2 ⟨hl, hc⟩
  have hm := (hs₀.draft e₁ he₁).model?_eq hp
  have hrefers := hp.refersTo_of_memberLink hdraft hmem (LinkState.mem_refs_of_involved hx) hm
  obtain ⟨x, hcolumn, -⟩ := (Option.any_eq_true _ _).1 hrefers.2
  obtain ⟨t, ht, hspec⟩ := hp.linkSpec hdraft.model hl
  -- The record is written because it is a member of the one that is deleted.
  have hes₁ : e₁ ∈ involvedRecords s₀ := by
    refine List.mem_filter.2 ⟨he₁, ?_⟩
    have htouched : e₁.ref ∈ s₀.entries.flatMap dependents := by
      refine List.mem_flatMap.2 ⟨e, he, List.mem_flatMap.2 ⟨(l, column), hmem, ?_⟩⟩
      simpa [hdoomed, hspec.cascades] using hx
    have hmember₁ : e₁.isMember = true := by
      cases hph : e₁.phase <;> simp_all [Entry.isStored, Entry.isMember]
    simp [hmember₁, htouched]
  have hnull : ∀ g u w, g = some .null → x.column.Written u g w → g = some .null ∧ w = .null := by
    rintro g u w rfl (_ | hsame | hstores)
    · exact ⟨rfl, Value.null_beq_eq hsame⟩
    · exact ⟨rfl, hstores.null rfl⟩
  have hI := hs₀.toDrafts.writing hp
  have hI' := hs₀.toDrafts.writing_shows (P := fun g _ => g = some .null) hp hm hcolumn
    (fun _ _ _ _ _ hv => congrArg some (hv.resolve_right fun hno => hno hs₀.calm))
    fun _ _ _ h _ => h
  have hJ := hs₀.toDrafts.writing_shows (P := fun g u => g = some .null ∧ u = .null) hp hm hcolumn
    (fun _ _ _ h _ hv => ⟨congrArg some (hv.resolve_right fun hno => hno hs₀.calm), h.2⟩)
    fun g u w h hw => hnull g u w h.1 hw
  refine (takes_saveTables hp hs₀.toDrafts hes
    (passing hp hs₀.toDrafts hI hes fun _ h => h.committed)
    (passing hp hs₀.toDrafts hI' hes fun _ h => h.1.committed)
    (passing hp hs₀.toDrafts hJ hes fun _ h => h.1.committed) ⟨hes₁, hkept, ?_, ?_, ?_⟩ s₀
    (hs₀.toDrafts.saving hD)).imp (fun _ _ h e he href hst => (h.2 e he href hst).2) fun _ _ h => h
  · refine (takes_unrefer hp hs₀ he hdoomed hmember hes₁ hl hc hx).bind fun _ => Keeps.takes
      ((keeps_referToOwners hp hs₀.toDrafts hI' hes hes₁).bind fun _ _ =>
        keeps_referToOthers hp hs₀.toDrafts hI' hes hes₁) fun _ h => h.1.committed
  · exact fun _ => takes_updateRow hp hs₀.toDrafts hes hes₁ hst hcolumn hI'.toRowWriting hnull
  · intro hpending
    cases hph : e₁.phase <;> simp_all [Entry.isStored, Entry.isPending]

end Act

namespace Catalog

variable {c : Catalog} {D : Database} {H : Ref → Prop} {r : Ref} {root : String} {k : Int}
  {s₀ s : Session}

/-- If no reference appears and those of the members of a record are emptied, there is none
to the record. -/
theorem Fading.unreferred (h : c.Fading root k s₀ s) (hp : c.Plain) (hD : c.Sound D)
    (hs₀ : c.Dooming D r root k s₀) {e : Entry} (he : e ∈ s₀.entries) (href : e.ref = r)
    (hst : e.isStored = true) (hk : e.key = [.int k])
    (hread : ∀ l ∈ e.model.links, ∀ column, l.kind = .members column → s₀.HasRead r l)
    (hempty : ∀ e₁ ∈ s₀.entries, e₁.isStored = true → e₁.isDoomed = false →
      ∀ l ∈ e.model.links, ∀ column, l.kind = .members column →
        e₁.ref ∈ (e.linkState l.name).involved → s.Shows e₁.ref column fun _ u => u = .null) :
    c.Unreferred s.db e.model.rootTable k := by
  intro t ht x hx y hy hname j row hrow hne hget
  obtain ⟨row₀, hrow₀, hfade⟩ := h.fades t ht j row hrow
  have hget₀ : Row.get row₀ x.name = .int k := by
    rcases hfade x hx with heq | ⟨-, -, hnull⟩
    · exact heq.symm.trans hget
    · rw [hnull] at hget
      cases hget
  have hmodel := (hs₀.draft e he).model
  obtain ⟨l, hl, hc, htarget⟩ := hp.members t ht x hx y hy e.model hmodel hname.symm
  obtain ⟨n, hn, hroot⟩ := (Option.any_eq_true _ _).1 htarget
  have hroot : n.rootTable = t.name := by simpa using hroot
  -- The row is that of a member that was read.
  have hclean : c.Clean D s₀ e := (hs₀.clean e he).resolve_left fun hfresh => by
    simp [Entry.isStored, hfresh] at hst
  obtain ⟨xs, hxs, hlinked⟩ : ∃ xs, e.linkState l.name = .read (some xs) xs ∧
      ∀ l', e.model.link? l.name = some l' → c.Linked D s₀ e l' xs := by
    refine (hclean.linkState l.name).resolve_left fun hno => ?_
    obtain ⟨before, now, h⟩ := hread l hl x.name hc e he href
    rw [hno] at h
    cases h
  rw [hs₀.db] at hrow₀
  obtain ⟨t', ht', hmem, hid⟩ := hD.row?_eq_some.1 hrow₀
  obtain ⟨x', hx', e₁, he₁, href₁, hst₁, hroot₁, hk₁⟩ :=
    (hlinked l (hp.link?_eq hmodel hl)).members hc hn (hroot ▸ ht') hmem
      (by simp [hget₀, Act.keyValue, hk]) hid
  have hroot₁ := hroot₁.trans hroot
  cases hdoomed : e₁.isDoomed with
  | true =>
    obtain rfl : e₁ = e := Session.eq_of_ref_eq hs₀.distinct he₁ he
      ((hs₀.only e₁ he₁ hdoomed).trans href.symm)
    rw [hk] at hk₁
    exact hne ⟨hroot₁.symm, by simpa using hk₁.symm⟩
  | false =>
    have hshows := hempty e₁ he₁ hst₁ hdoomed l hl x.name hc
      (hxs ▸ Act.mem_involved_of_read (href₁ ▸ hx'))
    obtain ⟨e', he', hframe⟩ := h.exists_written he₁
    have href' := Entry.ref_of_frame hframe
    have hst' := (Session.isStored_congr (Entry.phase_of_frame hframe)).trans hst₁
    have hshown := hshows e' he' href' hst'
    have hrow' : s.db.row? e'.model.rootTable j = some row := by
      rw [Entry.model_of_frame hframe, hroot₁]
      exact hrow
    rw [Entry.shown_eq ((h.keyed e₁ he₁ e' he' href').trans hk₁) hrow', hget] at hshown
    cases hshown

/-- A session in which the tables were written and no row refers to a record any more. -/
structure Freed (c : Catalog) (s₀ : Session) (e : Entry) (k : Int) (s : Session) : Prop where
  committed : s.committed = s₀.committed
  lacks : c.Lacks e.model.rootTable k s₀.db s.db
  free : c.Unreferred s.db e.model.rootTable k
  entry : ∀ e' ∈ s.entries, e'.ref = e.ref → e'.key = e.key ∧ e'.model = e.model

end Catalog

namespace Act

variable {c : Catalog} {D : Database} {H : Ref → Prop} {r : Ref} {root : String} {k : Int}
  {s₀ : Session}

/-- After the tables are written no row refers to the record that is to be deleted. -/
theorem ends_freed (hp : c.Plain) (hD : c.Sound D) {e : Entry}
    (hs₀ : c.Dooming D r e.model.rootTable k s₀) (he : e ∈ s₀.entries) (href : e.ref = r)
    (hdoomed : e.isDoomed = true) (hst : e.isStored = true) (hk : e.key = [.int k])
    (hread : ∀ l ∈ e.model.links, ∀ column, l.kind = .members column → s₀.HasRead r l) :
    Ends (c.rootTables.forM (saveTable (involvedRecords s₀))) s₀ (fun _ t => c.Freed s₀ e k t)
      fun _ t => t.committed = s₀.committed := by
  have hes := fun e (he : e ∈ involvedRecords s₀) => mem_of_involvedRecords he
  have hmember : e.isMember = true := by
    cases hph : e.phase <;> simp_all [Entry.isStored, Entry.isMember]
  have hfading : Ends (c.rootTables.forM (saveTable (involvedRecords s₀))) s₀
      (fun _ t => c.Fading e.model.rootTable k s₀ t) fun _ t => t.committed = s₀.committed :=
    (keeps_saveTables hp hs₀.toDrafts (hs₀.writing_fading hp hD) hes s₀
      (hs₀.fading_self hD)).imp (fun _ _ h => h.1) fun _ _ h => h.committed
  have hdone := hfading.imp (fun _ _ _ => trivial) fun _ _ h => h
  have hempty := ends_forall hdone fun i : { i : Entry × Link × String //
      i.1 ∈ s₀.entries ∧ i.1.isStored = true ∧ i.1.isDoomed = false ∧ i.2.1 ∈ e.model.links ∧
        i.2.1.kind = .members i.2.2 ∧ i.1.ref ∈ (e.linkState i.2.1.name).involved } =>
    ends_emptied hp hD hs₀.toQuiet he hdoomed hmember i.2.1 i.2.2.1 i.2.2.2.1 i.2.2.2.2.1
      i.2.2.2.2.2.1 i.2.2.2.2.2.2
  refine (hfading.and hempty).imp (fun _ t hboth => ?_) fun _ _ h => h.1
  obtain ⟨h, hempty⟩ := hboth
  refine ⟨h.committed, ⟨h.sound, h.fades, fun name j hsome _ => h.kept name j hsome⟩, ?_,
    fun e' he' href' => ⟨h.keyed e he e' he' href', ?_⟩⟩
  · exact h.unreferred hp hD hs₀ he href hst hk hread
      fun e₁ he₁ hst₁ hkept l hl column hc hx =>
        hempty ⟨(e₁, l, column), he₁, hst₁, hkept, hl, hc, hx⟩
  · exact Entry.model_of_frame (h.frame_eq hs₀.toDrafts he' he href')

/-! ## Deleting rows -/

/-- The row of the record is deleted. -/
theorem takes_deleteRows (hp : c.Plain) {e : Entry} (he : e.model ∈ c.models)
    (hk : e.key = [.int k]) : Takes (fun t => t.committed = s₀.committed) (c.Freed s₀ e k)
      (fun t => c.Freed s₀ e k t ∧ t.db.row? e.model.rootTable k = none) (deleteRows e.ref) := by
  have hentry : Keeps (c.Freed s₀ e k) (entry e.ref)
      fun e' => e'.key = e.key ∧ e'.model = e.model :=
    fun s hs => (still_entry e.ref s).imp (fun e' t ⟨ht, he'⟩ => by
      obtain ⟨hmem, href⟩ := Session.known?_mem he'
      exact ⟨ht ▸ hs, hs.entry e' hmem href⟩) fun _ _ h => h ▸ hs
  refine fun s hs => hentry.ends_bind hs (fun e' t ht ⟨hkey, hmodel⟩ => ?_) fun _ _ h => h.committed
  refine (Keeps.true (keeps_mapM (Q := fun _ => True) fun x _ =>
    (still_row? x.table e'.key).keeps.bind fun _ _ => keeps_pure trivial)).ends_bind ht
      (fun values u hu _ => ?_) fun _ _ h => h.committed
  rw [hmodel, hp.tables_eq _ he, hkey, hk]
  change Ends ((deleteRow [.int k] e.model.rootTable >>= fun _ => pure PUnit.unit) >>= fun _ => _) u
    _ _
  rw [bind_assoc, deleteRow, bind_assoc]
  refine still_database.ends_bind (fun db hdb => ?_) fun _ => hu.committed
  subst hdb
  cases hdel : u.db.delete e.model.rootTable [.int k] with
  | error f => exact hu.committed
  | ok db' =>
    obtain ⟨-, hfree, hrows⟩ := hu.lacks.sound.delete_unreferred hp hdel hu.free
    refine ⟨⟨hu.committed, hu.lacks.delete hp hdel hu.free, hfree, fun e' he' href => ?_⟩,
      (hrows _ _).trans (if_pos ⟨rfl, rfl⟩)⟩
    obtain ⟨e₁, he₁, ⟨-, rfl⟩ | ⟨-, rfl⟩⟩ := Session.mem_modify he'
    · exact hu.entry e₁ he₁ href
    · exact hu.entry _ he₁ href

/-- A removal is written, or it fails and leaves what was committed. -/
theorem ends_write_removal (hp : c.Plain) (hD : c.Sound D) (hs₀ : c.Dooming D r root k s₀) :
    Ends (write c) s₀ (fun _ t => t.committed = D ∧ c.Loses root k D t.db)
      fun _ t => t.committed = D := by
  obtain ⟨e₀, he₀, href₀, -⟩ := hs₀.known
  have hm := href₀ ▸ (hs₀.draft e₀ he₀).model?_eq hp
  unfold write
  rw [ends_bind]
  refine ends_doomOrphans hs₀.toDrafts ?_
  rw [ends_bind]
  refine (ends_readMembers hp hD hs₀ hm).imp (fun _ s ⟨hs, hread⟩ => ?_) fun _ _ h => h
  rw [ends_bind, ends_get]
  dsimp only
  obtain ⟨e, he, href, hdoomed, hst, rfl, hk⟩ := hs.known
  have hdraft := hs.draft e he
  have hmodel : e.model = e₀.model := by
    have h := hdraft.model?_eq hp
    rw [href, hm] at h
    exact (Option.some.inj h).symm
  rw [ends_bind]
  refine (ends_freed hp hD hs he href hdoomed hst hk (hmodel ▸ hread)).imp (fun _ t ht => ?_)
    fun _ _ h => h.trans hs.committed
  rw [ends_bind]
  refine ends_saveAllPairs hp ?_ fun _ => ht.committed.trans hs.committed
  rw [ends_bind]
  -- The only record to be deleted is this one.
  have hstep : Takes (fun t => t.committed = s.committed) (c.Freed s e k)
      (fun t => c.Freed s e k t ∧ t.db.row? e.model.rootTable k = none) (deleteRows e.ref) :=
    takes_deleteRows hp hdraft.model hk
  have hkept : Takes (fun t => t.committed = s.committed)
      (fun t => c.Freed s e k t ∧ t.db.row? e.model.rootTable k = none)
      (fun t => c.Freed s e k t ∧ t.db.row? e.model.rootTable k = none) (deleteRows e.ref) :=
    fun t ht => hstep t ht.1
  have hmem : e ∈ (involvedRecords s).filter fun e' =>
      e'.isDoomed && e'.model.rootTable == e.model.rootTable := by
    refine List.mem_filter.2 ⟨List.mem_filter.2 ⟨he, ?_⟩, by simp [hdoomed]⟩
    cases hph : e.phase <;> simp_all [Entry.isStored, Entry.isMember]
  have hrefs : ∀ root, ∀ e' ∈ (involvedRecords s).filter fun e' =>
      e'.isDoomed && e'.model.rootTable == root, e'.ref = e.ref := fun root e' he' => by
    obtain ⟨he', hcond⟩ := List.mem_filter.1 he'
    exact (hs.only e' (mem_of_involvedRecords he').1 (Bool.and_eq_true_iff.1 hcond).1).trans
      href.symm
  have hdelete : ∀ root, Takes (fun t => t.committed = s.committed) (c.Freed s e k) (c.Freed s e k)
      (deleteDoomed (involvedRecords s) root) := fun root => takes_forM_self fun e' he' =>
    hrefs root e' he' ▸ fun t ht => (hstep t ht).imp (fun _ _ h => h.1) fun _ _ h => h
  refine (takes_forM (List.mem_reverse.2 (hp.ordered _ hdraft.model)) (fun root _ => hdelete root)
    (fun root _ => takes_forM_self fun e' he' => hrefs root e' he' ▸ hkept) (takes_forM hmem
      (fun e' he' => hrefs _ e' he' ▸ fun t ht => (hstep t ht).imp (fun _ _ h => h.1)
        fun _ _ h => h)
      (fun e' he' => hrefs _ e' he' ▸ hkept) hstep) t ht).imp
        (fun _ u hu => ⟨hu.1.committed.trans hs.committed, hs.db ▸ hu.1.lacks, hu.2⟩)
        fun _ u hu => hu.trans hs.committed

/-- A removal is committed, or what was committed stays. -/
theorem ends_commit_removal (hp : c.Plain) (hD : c.Sound D) (hs₀ : c.Dooming D r root k s₀) :
    Ends (commit c) s₀ (fun _ t => c.Loses root k D t.committed)
      fun _ t => t.committed = D := by
  have hchanges : hasChanges s₀ = true := by
    obtain ⟨e, he, -, hdoomed, hst, -⟩ := hs₀.known
    refine List.any_eq_true.2 ⟨e, he, ?_⟩
    cases hph : e.phase <;> simp_all [Entry.isStored, Entry.isMember]
  have hflush : Ends (flush c) s₀ (fun _ t => t.committed = D ∧ c.Loses root k D t.db)
      fun _ t => t.committed = D := by
    unfold flush
    rw [ends_bind, ends_get]
    dsimp only
    rw [if_neg (by simp [hchanges])]
    refine still_database.ends_bind (fun _ _ => ?_) fun _ => hs₀.committed
    rw [ends_tryCatch]
    exact (ends_write_removal hp hD hs₀).imp (fun _ _ h => h) fun _ _ h => h
  unfold commit
  rw [ends_bind]
  refine hflush.imp (fun _ t h => ?_) fun _ _ h => h
  exact still_database.ends_bind (fun _ _ => h.2) fun _ => h.1

/-- A stored record may be let be deleted, as the only one in a quiet session of drafts. -/
theorem ends_delete_held (hp : c.Plain) (hD : c.Sound D) (hs : c.Quiet D s₀)
    (hkept : c.Edited D H s₀) (hholds : s₀.Holds r root k) :
    Ends (delete c r) s₀ (fun _ t => c.Dooming D r root k t) fun _ _ => False := by
  obtain ⟨e, hmem, rfl, hst, rfl, hk⟩ := hholds
  have hdraft := hs.draft e hmem
  have he := hs.known?_eq hmem
  obtain ⟨t, ht, -⟩ := hD.table hp hdraft.model
  have hnone : e.model.links.filter Link.cascades = [] := by
    refine List.filter_eq_nil_iff.2 fun l hl h => ?_
    obtain ⟨t, -, hspec⟩ := hp.linkSpec hdraft.model hl
    simp [hspec.cascades] at h
  unfold delete
  rw [ends_bind]
  refine ends_entry he ?_
  rw [if_pos hst]
  unfold Act.table
  simp only [ends_bind]
  refine ends_database hs.failed ?_
  rw [hs.db, ht, ends_ofExcept_ok, ends_get]
  unfold doom
  rw [ends_bind]
  refine ends_entry he ?_
  rw [if_neg (by simp [hst, hkept.kept e hmem]), hnone]
  refine ⟨⟨hs.toDrafts.modify fun e' he' _ => ⟨{ hs.draft e' he' with }, rfl, rfl, rfl, rfl⟩,
    fun e' he' => ?_⟩, fun e' he' hdoomed => ?_, ?_⟩
  · have hseen : s₀.SeenFrom (s₀.modify e.ref fun e => { e with isDoomed := true }) :=
      .modify s₀ e.ref fun _ => ⟨rfl, rfl, rfl, rfl, rfl⟩
    obtain ⟨e₁, he₁, ⟨-, rfl⟩ | ⟨-, rfl⟩⟩ := Session.mem_modify he'
    · refine (hs.clean e₁ he₁).imp id fun h => ⟨h.stored, h.values, fun st hst => ?_⟩
      obtain ⟨xs, hxs, hl⟩ := h.link st hst
      exact ⟨xs, hxs, fun l hl' => ((hl l hl').mono hseen).congr rfl rfl rfl⟩
    · exact (hs.clean _ he₁).imp id fun h => h.mono hseen
  · obtain ⟨e₁, he₁, ⟨href, rfl⟩ | ⟨-, rfl⟩⟩ := Session.mem_modify he'
    · exact href
    · simp [hkept.kept _ he₁] at hdoomed
  · exact ⟨{ e with isDoomed := true }, List.mem_map.2 ⟨e, hmem, by simp⟩, rfl, rfl, hst, rfl, hk⟩

/-- A record is let be deleted if it is stored. -/
theorem ends_delete (hp : c.Plain) (hD : c.Sound D) (hs : c.Quiet D s₀) (hkept : c.Edited D H s₀)
    (r : Ref) :
    Ends (delete c r) s₀ (fun _ t => ∃ root k, s₀.Holds r root k ∧ c.Dooming D r root k t)
      fun _ t => t.committed = D := by
  by_cases hholds : ∃ root k, s₀.Holds r root k
  · obtain ⟨root, k, hholds⟩ := hholds
    exact (ends_delete_held hp hD hs hkept hholds).imp (fun _ _ ht => ⟨root, k, hholds, ht⟩)
      fun _ _ h => h.elim
  · unfold delete
    refine (still_entry r).ends_bind (fun e he => ?_) fun _ => hs.committed
    obtain ⟨hmem, href⟩ := Session.known?_mem he
    rw [if_neg fun hst => ?_]
    · exact hs.committed
    · obtain ⟨k, -, hk, -⟩ := (hs.draft e hmem).stored hst
      exact hholds ⟨_, k, e, hmem, href, hst, rfl, hk⟩

/-- A record is removed, or nothing is changed. -/
theorem ends_destroy (hp : c.Plain) (hD : c.Sound D) (hs : c.Quiet D s₀) (hkept : c.Edited D H s₀)
    (r : Ref) : Ends (destroy c r) s₀
      (fun b t => if b then ∃ root k, s₀.Holds r root k ∧ c.Loses root k D t.committed
        else t.committed = D) fun _ t => t.committed = D := by
  unfold destroy
  rw [ends_bind]
  refine (ends_delete hp hD hs hkept r).imp (fun _ t ht => ?_) fun _ _ h => h
  obtain ⟨root, k, hholds, ht⟩ := ht
  rw [ends_tryCatch, ends_bind]
  refine (ends_commit_removal hp hD ht).imp (fun _ u hu => ⟨root, k, hholds, hu⟩)
    fun f u hu => ?_
  split
  · exact show u.rollback.committed = D from hu
  · exact hu

end Act

end Hypermedia
