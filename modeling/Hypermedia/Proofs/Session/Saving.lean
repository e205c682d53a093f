import Hypermedia.Proofs.Relational.Writing
import Hypermedia.Proofs.Session.Cells
import Hypermedia.Proofs.Session.Reading
import Mathlib.Data.List.Pairwise

/-!
# Sessions that are writing

While a session writes its changes, only the keys and the values of its records change and
the database stays sound. A record that is to be stored gets its key when its row is
inserted; the columns that refer to other records get their keys (`Catalog.Saved`,
`Catalog.Saving`). What an inserted row has, and what a changed one has, is said once
(`Entry.Inserted`, `Entry.Updated`).
-/

namespace Hypermedia

namespace Entry

/-- A record apart from what a writing changes. -/
def frame (e : Entry) : Entry := { e with key := [], values := [] }

/-- What a new row of a record gets in a column: what the record was given if that is something,
else the default. -/
def newCell (e : Entry) (x : MappedColumn) : Option Value :=
  match e.given? x.column.name with
  | some v => if v.isNull && x.column.type ≠ .json then x.column.default else some v
  | none => x.column.default

/-- A database with the row of a new record. -/
structure Inserted (e : Entry) (db db' : Database) (k : Int) (row : Row) : Prop where
  key : e.model.keyNames.map (Row.get row) = [.int k]
  fresh : db.row? e.model.rootTable k = none
  rows : ∀ name j, db'.row? name j =
    if name = e.model.rootTable ∧ j = k then some row else db.row? name j
  cell : ∀ {name x v}, e.model.column? name = some x → e.newCell x = some v →
    x.column.Stores v (Row.get row name)

/-- A database in which the changed cells of a record were written to its row. -/
structure Updated (e : Entry) (db db' : Database) (k : Int) (old new : Row) : Prop where
  key : (e.model.keyNames.map fun n => (e.given? n).getD (Row.get old n)) = e.key
  row : db'.row? e.model.rootTable k = some new
  others : ∀ name j, ¬(name = e.model.rootTable ∧ j = k) → db'.row? name j = db.row? name j
  cells : ∀ t, db.table e.model.rootTable = .ok t → ∀ x ∈ t.columns,
    (x.name ∉ Row.names (Act.changedCells e e.model.rootTable old) →
      Row.get new x.name = Row.get old x.name) ∧
    (x.name ∈ Row.names (Act.changedCells e e.model.rootTable old) →
      x.Stores (Row.get (Act.changedCells e e.model.rootTable old) x.name) (Row.get new x.name))

variable {e e' : Entry}

namespace Inserted

variable {db db' : Database} {k : Int} {row : Row} (h : e.Inserted db db' k row)

include h

/-- The rows from before stay. -/
theorem kept {name : String} {j : Int} {r : Row} (hr : db.row? name j = some r) :
    db'.row? name j = some r := by
  rw [h.rows, if_neg, hr]
  rintro ⟨rfl, rfl⟩
  exact absurd (h.fresh.symm.trans hr) nofun

theorem row?_eq : db'.row? e.model.rootTable k = some row := by
  rw [h.rows, if_pos ⟨rfl, rfl⟩]

end Inserted

theorem ref_of_frame (h : e.frame = e'.frame) : e.ref = e'.ref :=
  show e.frame.ref = e'.frame.ref from congrArg Entry.ref h

theorem model_of_frame (h : e.frame = e'.frame) : e.model = e'.model :=
  show e.frame.model = e'.frame.model from congrArg Entry.model h

theorem phase_of_frame (h : e.frame = e'.frame) : e.phase = e'.phase :=
  show e.frame.phase = e'.frame.phase from congrArg Entry.phase h

theorem links_of_frame (h : e.frame = e'.frame) : e.links = e'.links :=
  show e.frame.links = e'.frame.links from congrArg Entry.links h

theorem lost_of_frame (h : e.frame = e'.frame) : e.lost = e'.lost :=
  show e.frame.lost = e'.frame.lost from congrArg Entry.lost h

end Entry

namespace Catalog

/-- A record while the changes are written. -/
structure Saved (c : Catalog) (db : Database) (e : Entry) : Prop where
  model : e.model ∈ c.models
  name : e.ref.model = e.model.name
  built : e.model.isBuilt = true
  phase : e.phase = .fresh ∨ (∃ n, e.phase = .pending n) ∨ e.phase = .stored false
  row : e.key ≠ [] → ∃ k r, e.key = [.int k] ∧ db.row? e.model.rootTable k = some r ∧
    c.modelOfRow e.model r = .ok e.model
  stored : e.isStored = true → e.key ≠ []
  loose : e.isMember = false → e.key = [] ∧ ∀ v ∈ e.values, Accepts e.model v.1 v.2
  kind : e.isStored = false → ∀ k ∈ e.model.discriminator, (e.given? k).isSome = true
  value : ∀ v ∈ e.values, Writes db e.model v

/-- A session while the changes are written, from another one on. -/
structure Saving (c : Catalog) (s₀ s : Session) : Prop where
  committed : s.committed = s₀.committed
  failed : s.failed = false
  eager : s.eager = false
  next : s.next = s₀.next
  frame : s.entries.map Entry.frame = s₀.entries.map Entry.frame
  sound : c.Sound s.db
  saved : ∀ e ∈ s.entries, c.Saved s.db e
  keys : s.entries.Pairwise fun a b => a.key ≠ [] → b.key ≠ [] →
    a.model.rootTable = b.model.rootTable → a.key ≠ b.key

variable {c : Catalog} {D db : Database} {s₀ s : Session}

theorem Draft.saved {e : Entry} (he : c.Draft D e) : c.Saved D e where
  model := he.model
  name := he.name
  built := he.built
  phase := he.phase
  row := by
    intro hkey
    cases hstored : e.isStored with
    | false => exact absurd (he.unstored hstored) hkey
    | true => exact he.stored hstored
  stored := by
    intro hstored
    obtain ⟨k, -, hk, -⟩ := he.stored hstored
    simp [hk]
  loose := fun h =>
    ⟨he.unstored (by cases hph : e.phase <;> simp_all [Entry.isStored, Entry.isMember]), he.value⟩
  kind := he.kind
  value := fun v hv => Or.inl (he.value v hv)

/-- The changes of a session of drafts can be written. -/
theorem Drafts.saving (h : c.Drafts D s) (hD : c.Sound D) : c.Saving s s where
  committed := rfl
  failed := h.failed
  eager := h.eager
  next := rfl
  frame := rfl
  sound := h.db ▸ hD
  saved := fun e he => h.db ▸ (h.draft e he).saved
  keys := by
    refine h.keys.imp_of_mem fun {a b} ha hb hab hka hkb hroot => ?_
    have hstored : ∀ e ∈ s.entries, e.key ≠ [] → e.isStored = true := by
      intro e he hkey
      cases hst : e.isStored with
      | false => exact absurd ((h.draft e he).unstored hst) hkey
      | true => rfl
    exact hab (hstored a ha hka) (hstored b hb hkb) hroot

theorem Saved.mono {db' : Database} {e : Entry} (h : c.Saved db e) (hg : c.Grows db db') :
    c.Saved db' e :=
  { h with
    row := by
      intro hkey
      obtain ⟨k, r, hk, hrow, hmodel⟩ := h.row hkey
      obtain ⟨r', hr', hsame⟩ := hg _ k r hrow
      exact ⟨k, r', hk, hr', (hsame _ h.model rfl).trans hmodel⟩
    value := fun v hv => (h.value v hv).mono hg }

theorem Saved.model?_eq (hp : c.Plain) {e : Entry} (he : c.Saved db e) :
    c.model? e.ref.model = some e.model :=
  he.name ▸ hp.model?_eq he.model

theorem Saved.model_eq (hp : c.Plain) {e : Entry} (he : c.Saved db e) {m : Model}
    (hm : c.model? e.ref.model = some m) : e.model = m :=
  Option.some.inj ((he.model?_eq hp).symm.trans hm)

namespace Saving

theorem numbers (h : c.Saving s₀ s) : s.entries.map (fun e => e.ref.number) =
    s₀.entries.map fun e => e.ref.number := by
  have hmap : ∀ es : List Entry, es.map (fun e => e.ref.number) =
      (es.map Entry.frame).map fun e => e.ref.number := fun es => by
    rw [List.map_map]
    rfl
  rw [hmap s.entries, hmap s₀.entries, h.frame]

/-- A record is known by its reference. -/
theorem known?_eq (h : c.Saving s₀ s) (hs₀ : c.Drafts D s₀) {e : Entry} (he : e ∈ s.entries) :
    s.known? e.ref = some e :=
  Session.known?_eq_some (h.numbers ▸ hs₀.distinct) he

/-- The records of one reference differ in what is written only. -/
theorem frame_eq (h : c.Saving s₀ s) (hs₀ : c.Drafts D s₀) {e e₀ : Entry} (he : e ∈ s.entries)
    (he₀ : e₀ ∈ s₀.entries) (href : e.ref = e₀.ref) : e.frame = e₀.frame := by
  have hmem : e.frame ∈ s₀.entries.map Entry.frame := h.frame ▸ List.mem_map_of_mem he
  obtain ⟨e₁, he₁, heq⟩ := List.mem_map.1 hmem
  have href₁ := Entry.ref_of_frame heq
  rw [← heq, Session.eq_of_ref_eq hs₀.distinct he₁ he₀ (href₁.trans href)]

theorem exists_frame (h : c.Saving s₀ s) {e : Entry} (he : e ∈ s.entries) :
    ∃ e₀ ∈ s₀.entries, e.frame = e₀.frame := by
  have hmem : e.frame ∈ s₀.entries.map Entry.frame := h.frame ▸ List.mem_map_of_mem he
  obtain ⟨e₀, he₀, heq⟩ := List.mem_map.1 hmem
  exact ⟨e₀, he₀, heq.symm⟩

theorem exists_written (h : c.Saving s₀ s) {e₀ : Entry} (he₀ : e₀ ∈ s₀.entries) :
    ∃ e ∈ s.entries, e.frame = e₀.frame := by
  have hmem : e₀.frame ∈ s.entries.map Entry.frame := h.frame ▸ List.mem_map_of_mem he₀
  exact List.mem_map.1 hmem

/-- A step of the writing: the database grows and one record changes. -/
theorem modify (h : c.Saving s₀ s) (hs₀ : c.Drafts D s₀) {db' : Database}
    (hg : c.Grows s.db db') (hsound : c.Sound db') {r : Ref} {f : Entry → Entry}
    (hf : ∀ e ∈ s.entries, e.ref = r → c.Saved db' (f e) ∧ (f e).frame = e.frame)
    (hkeys : ∀ e ∈ s.entries, e.ref = r → ∀ e' ∈ s.entries, e'.ref ≠ r → (f e).key ≠ [] →
      e'.key ≠ [] → e.model.rootTable = e'.model.rootTable → (f e).key ≠ e'.key) :
    c.Saving s₀ (({ s with db := db' } : Session).modify r f) where
  committed := h.committed
  failed := h.failed
  eager := h.eager
  next := h.next
  frame := by
    rw [← h.frame]
    refine Session.map_modify Entry.frame fun e he hr => (hf e he hr).2
  sound := hsound
  saved := by
    intro e he
    obtain ⟨e₀, he₀, ⟨hr, rfl⟩ | ⟨-, rfl⟩⟩ := Session.mem_modify he
    · exact (hf e₀ he₀ hr).1
    · exact (h.saved _ he₀).mono hg
  keys := by
    have hne : s.entries.Pairwise fun a b => a.ref.number ≠ b.ref.number := by
      have hn : (s.entries.map fun e => e.ref.number).Nodup := h.numbers ▸ hs₀.distinct
      exact List.pairwise_map.1 hn
    have hmodel : ∀ e ∈ s.entries, e.ref = r → (f e).model = e.model := fun e he hr =>
      Entry.model_of_frame (hf e he hr).2
    refine List.pairwise_map.2 ((h.keys.and hne).imp_of_mem fun {a b} ha hb ⟨hab, hnum⟩ => ?_)
    by_cases har : a.ref = r <;> by_cases hbr : b.ref = r
    · exact absurd (congrArg Ref.number (har.trans hbr.symm)) hnum
    · simp only [har, beq_self_eq_true, if_true, beq_eq_false_iff_ne.2 hbr, Bool.false_eq_true,
        if_false]
      rw [hmodel a ha har]
      exact hkeys a ha har b hb hbr
    · simp only [hbr, beq_self_eq_true, if_true, beq_eq_false_iff_ne.2 har, Bool.false_eq_true,
        if_false]
      rw [hmodel b hb hbr]
      exact fun h1 h2 h3 h4 => hkeys b hb hbr a ha har h2 h1 h3.symm h4.symm
    · simp only [beq_eq_false_iff_ne.2 har, beq_eq_false_iff_ne.2 hbr, Bool.false_eq_true, if_false]
      exact hab

end Saving

/-! ## Cells of new and changed rows -/

theorem mem_of_given? {e : Entry} {name : String} {v : Value} (h : e.given? name = some v) :
    (name, v) ∈ e.values := by
  obtain ⟨⟨n, w⟩, hfind, rfl⟩ := Option.map_eq_some_iff.1 h
  have hname : n = name := by simpa using List.find?_some hfind
  exact hname ▸ List.mem_of_find?_eq_some hfind

theorem Plain.column?_eq (hp : c.Plain) {m : Model} (hm : m ∈ c.models) {x : MappedColumn}
    (hx : x ∈ m.columns) : m.column? x.column.name = some x :=
  (find?_key_eq_some (hp.own_names m hm)).2 ⟨hx, rfl⟩

/-- The cells of a new row are what its columns get. -/
theorem Plain.mem_newCells (hp : c.Plain) {e : Entry} (he : e.model ∈ c.models)
    {cell : String × Value} : cell ∈ Act.newCells e e.model.rootTable ↔
      ∃ x ∈ e.model.columns, x.column.name = cell.1 ∧ e.newCell x = some cell.2 := by
  have hcell : ∀ x : MappedColumn, (match e.given? x.column.name with
      | some v =>
        if v.isNull && x.column.type ≠ .json then
          x.column.default.map fun v => (x.column.name, v)
        else some (x.column.name, v)
      | none => x.column.default.map fun v => (x.column.name, v)) =
        (e.newCell x).map fun v => (x.column.name, v) := by
    intro x
    unfold Entry.newCell
    split
    · split <;> rfl
    · rfl
  simp only [Act.newCells, beq_self_eq_true, if_true, List.mem_filterMap, List.mem_filter]
  constructor
  · rintro ⟨x, ⟨hx, -⟩, hv⟩
    obtain ⟨v, hnew, rfl⟩ := Option.map_eq_some_iff.1 ((hcell x).symm.trans hv)
    exact ⟨x, hx, rfl, hnew⟩
  · rintro ⟨x, hx, hname, hv⟩
    refine ⟨x, ⟨hx, by simpa using hp.columns e.model he x hx⟩, (hcell x).trans ?_⟩
    rw [hv, hname]
    rfl

/-- What a new row gets in a column is the only cell of its name. -/
theorem Plain.get_newCells (hp : c.Plain) {e : Entry} (he : e.model ∈ c.models) {name : String}
    {x : MappedColumn} (hx : e.model.column? name = some x) {v : Value}
    (hv : e.newCell x = some v) :
    name ∈ Row.names (Act.newCells e e.model.rootTable) ∧
      Row.get (Act.newCells e e.model.rootTable) name = v := by
  have hname : x.column.name = name := by simpa using List.find?_some hx
  have hmem : name ∈ Row.names (Act.newCells e e.model.rootTable) :=
    List.mem_map.2
      ⟨(name, v), (hp.mem_newCells he).2 ⟨x, List.mem_of_find?_eq_some hx, hname, hv⟩, rfl⟩
  obtain ⟨y, hy, hyname, hvalue⟩ := (hp.mem_newCells he).1 (Row.get_mem hmem)
  obtain rfl := Option.some.inj ((hyname ▸ hp.column?_eq he hy).symm.trans hx)
  exact ⟨hmem, Option.some.inj (hvalue.symm.trans hv)⟩

namespace Saved

variable {e : Entry} (h : c.Saved db e)

include h

/-- What is written to a new row may be written. -/
theorem writes_newCells (hp : c.Plain) :
    ∀ x ∈ Act.newCells e e.model.rootTable, Writes db e.model x := by
  have hdefault : ∀ x ∈ e.model.columns, ∀ v ∈ x.column.default,
      Writes db e.model (x.column.name, v) := by
    intro x hx v hv
    obtain ⟨hown, hholds⟩ := hp.default e.model h.model x hx v hv
    exact Or.inl ⟨x, hp.column?_eq h.model hx, Or.inl ⟨hown, Or.inr hholds⟩⟩
  intro cell hcell
  obtain ⟨x, hx, hname, hv⟩ := (hp.mem_newCells h.model).1 hcell
  have hcell : (x.column.name, cell.2) = cell := by rw [hname]
  unfold Entry.newCell at hv
  split at hv
  · next v hgiven =>
    split at hv
    · exact hcell ▸ hdefault x hx _ hv
    · obtain rfl := Option.some.inj hv
      exact hcell ▸ h.value _ (mem_of_given? hgiven)
  · exact hcell ▸ hdefault x hx _ hv

/-- What is written to a changed row may be written. -/
theorem writes_changedCells (table : String) (row : Row) :
    ∀ x ∈ Act.changedCells e table row, Writes db e.model x := by
  intro cell hcell
  obtain ⟨x, -, hcell⟩ := List.mem_filterMap.1 hcell
  split at hcell
  · next v hv =>
    split at hcell
    · cases hcell
    · cases hcell
      exact h.value _ (mem_of_given? hv)
  · cases hcell

/-- A new row gets the identity of the model as its kind. -/
theorem newCell_kind (hp : c.Plain) (hdb : c.Sound db) (hstored : e.isStored = false) {k : String}
    (hk : e.model.discriminator = some k) : ∃ x i, e.model.column? k = some x ∧
      x.column.type = .string ∧ e.model.identity = some i ∧ e.newCell x = some (.text i) := by
  obtain ⟨v, hv⟩ := Option.isSome_iff_exists.1 (h.kind hstored k hk)
  obtain ⟨x, hx, hkind⟩ := (Option.any_eq_true _ _).1 (hp.kind e.model h.model k hk)
  have hname : x.column.name = k := by simpa using List.find?_some hx
  obtain ⟨i, hi, hget⟩ := hdb.kind_of_writes hp h.model h.value hk
    (List.mem_map.2 ⟨_, mem_of_given? hv, rfl⟩)
  have hvalue : v = .text i := by
    rw [← hget, Row.get]
    exact (Option.getD_eq_iff.2 (Or.inl hv)).symm
  refine ⟨x, i, hx, by simp_all, hi, ?_⟩
  simp [Entry.newCell, hname, hv, hvalue, Value.isNull]

/-- The row that was inserted for a record is one of its model. -/
theorem modelOfRow_new (hp : c.Plain) (hdb : c.Sound db) (hstored : e.isStored = false)
    {row : Row} (hcell : ∀ {name x v}, e.model.column? name = some x → e.newCell x = some v →
      x.column.Stores v (Row.get row name)) : c.modelOfRow e.model row = .ok e.model := by
  cases hkind : e.model.discriminator with
  | none => simp [modelOfRow, hkind]
  | some k =>
    obtain ⟨x, i, hx, htype, hi, hnew⟩ := h.newCell_kind hp hdb hstored hkind
    exact hp.modelOfRow_eq h.model rfl h.built hkind hkind hi ((hcell hx hnew).text htype)

/-- The model of the row of a record is that of the record. -/
theorem modelOfRow_eq {k : Int} (hk : e.key = [.int k]) {row : Row}
    (hrow : db.row? e.model.rootTable k = some row) : c.modelOfRow e.model row = .ok e.model := by
  obtain ⟨k', r, hk', hr, hmodel⟩ := h.row (by simp [hk])
  obtain rfl : k = k' := by simpa [hk] using hk'
  obtain rfl := Option.some.inj (hrow.symm.trans hr)
  exact hmodel

/-- A record is given no number. -/
theorem given?_id (hp : c.Plain) (hdb : c.Sound db) : e.given? "id" = none := by
  obtain ⟨t, ht, -, -, -⟩ := hdb.table hp h.model
  cases hg : e.given? "id" with
  | none => rfl
  | some v =>
    have hfit := hdb.fits_of_writes hp h.model h.built ht h.value
    exact absurd (List.mem_map.2 ⟨_, mem_of_given? hg, rfl⟩) hfit.noKey

/-- The kind is written only as it is already. -/
theorem kind_updated (hp : c.Plain) (hdb : c.Sound db) {k : Int} (hk : e.key = [.int k])
    {row : Row} (hrow : db.row? e.model.rootTable k = some row) {db' : Database} {new : Row}
    (hupdated : e.Updated db db' k row new) {n : String} (hn : e.model.discriminator = some n) :
    Row.get new n = Row.get row n := by
  obtain ⟨t, ht, -, -, hcols⟩ := hdb.table hp h.model
  obtain ⟨y, hy, rfl, htype, -⟩ := hp.kind_column h.model hn hcols
  obtain ⟨hkept, hstored⟩ := hupdated.cells t ht y hy
  by_cases hmem : y.name ∈ Row.names (Act.changedCells e e.model.rootTable row)
  · obtain ⟨i, hi, hv⟩ := hdb.kind_of_writes hp h.model (h.writes_changedCells _ row) hn hmem
    rw [(hstored hmem).text htype, hv, kind_of_modelOfRow hn hi (h.modelOfRow_eq hk hrow)]
  · exact hkept hmem

/-- A column of the model has in the new row what the store keeps of a changed cell, or what it
had in the old row. -/
theorem cell_updated (hp : c.Plain) (hdb : c.Sound db) {k : Int} {row : Row} {db' : Database}
    {new : Row} (hupdated : e.Updated db db' k row new) {name : String} {x : MappedColumn}
    (hx : e.model.column? name = some x) :
    (name ∉ Row.names (Act.changedCells e e.model.rootTable row) →
      Row.get new name = Row.get row name) ∧
    (name ∈ Row.names (Act.changedCells e e.model.rootTable row) →
      x.column.Stores (Row.get (Act.changedCells e e.model.rootTable row) name)
        (Row.get new name)) := by
  obtain ⟨t, ht, y, hy, rfl, htype⟩ := hdb.column hp h.model hx
  exact (hupdated.cells t ht y hy).imp_right fun hstored hmem => (hstored hmem).of_type htype

end Saved

/-! ## Steps of a writing -/

theorem Grows.refl (c : Catalog) (db : Database) : c.Grows db db :=
  fun _ _ r hr => ⟨r, hr, fun _ _ _ => rfl⟩

namespace Saving

variable (hp : c.Plain) (h : c.Saving s₀ s) (hs₀ : c.Drafts D s₀) {e : Entry}
  (he : e ∈ s.entries)

include h hs₀ he

theorem eq_of_ref {e' : Entry} (he' : e' ∈ s.entries) (href : e'.ref = e.ref) : e' = e :=
  Option.some.inj ((h.known?_eq hs₀ he').symm.trans (href ▸ h.known?_eq hs₀ he))

omit hs₀ he in
/-- Records with keys in one table have different keys. -/
theorem key_ne {e e' : Entry} (he : e ∈ s.entries) (he' : e' ∈ s.entries) (hne : e.ref ≠ e'.ref)
    (hk : e.key ≠ []) (hk' : e'.key ≠ []) (hroot : e.model.rootTable = e'.model.rootTable) :
    e.key ≠ e'.key := by
  have hsymm : Std.Symm fun a b : Entry => a.key ≠ [] → b.key ≠ [] →
      a.model.rootTable = b.model.rootTable → a.key ≠ b.key :=
    ⟨fun a b hab h1 h2 h3 h4 => hab h2 h1 h3.symm h4.symm⟩
  exact h.keys.forall he he' (fun heq => hne (congrArg Entry.ref heq)) hk hk' hroot

/-- A column that refers to another record is filled in. -/
theorem refer (hmember : e.isMember = true) {column : String} {v : Value}
    (hv : Refers s.db e.model column v) :
    c.Saving s₀ (s.modify e.ref fun e => e.setValue column v) := by
  refine h.modify hs₀ (Grows.refl c s.db) h.sound (fun e' he' href => ⟨?_, rfl⟩) ?_
  · obtain rfl := h.eq_of_ref hs₀ he he' href
    have hsaved := h.saved _ he
    exact { hsaved with
      loose := fun hloose => absurd (show e'.isMember = false from hloose) (by simp [hmember])
      kind := by
        intro hstored k hk
        rw [Entry.given?_setValue]
        split
        · rfl
        · exact hsaved.kind hstored k hk
      value := by
        intro f hf
        rcases List.mem_append.1 hf with hf | hf
        · exact hsaved.value f (List.mem_filter.1 hf).1
        · exact List.mem_singleton.1 hf ▸ Or.inr hv }
  · intro e' he' href e'' he'' hne hk hk' hroot
    have hdiffer : e'.key ≠ e''.key :=
      h.key_ne he' he'' (fun heq => hne (heq.symm.trans href)) hk hk' hroot
    exact hdiffer

include hp

/-- The row of a new record is inserted, and the record gets its key. -/
theorem insert (hpending : e.isPending = true) {db' : Database} {row : Row}
    (hins : s.db.insert e.model.rootTable (Act.newCells e e.model.rootTable) = .ok (db', row)) :
    (∃ k, e.Inserted s.db db' k row) ∧
      c.Saving s₀ (({ s with db := db' } : Session).modify e.ref fun e' =>
        { e' with key := e'.model.keyNames.map (Row.get row) }) := by
  have hsaved := h.saved _ he
  have hstored : e.isStored = false := by
    cases hph : e.phase <;> simp_all [Entry.isStored, Entry.isPending]
  obtain ⟨hsound, ⟨k, hk, hnone, hrows⟩, hstores⟩ := h.sound.insert hp hins fun t' ht' => by
    refine ⟨h.sound.fits_of_writes hp hsaved.model hsaved.built ht' (hsaved.writes_newCells hp), ?_⟩
    intro m hm hroot n hn
    have hsame := hp.sameKind m hm e.model hsaved.model (hroot.trans (Database.table_mem ht').2)
    obtain ⟨x, i, hx, -, -, hnew⟩ := hsaved.newCell_kind hp h.sound hstored (hsame ▸ hn)
    exact (hp.get_newCells hsaved.model hx hnew).1
  have hinserted : e.Inserted s.db db' k row := by
    refine ⟨by simp [hp.keyNames _ hsaved.model, hk], hnone, hrows, fun {name x v} hx hnew => ?_⟩
    obtain ⟨t, ht, y, hy, rfl, htype⟩ := h.sound.column hp hsaved.model hx
    obtain ⟨hmem, hget⟩ := hp.get_newCells hsaved.model hx hnew
    exact (hget ▸ hstores t ht y hy hmem).of_type htype
  have hmodel := hsaved.modelOfRow_new hp h.sound hstored hinserted.cell
  have hgrows : c.Grows s.db db' := fun name k r hr =>
    ⟨r, hinserted.kept hr, fun _ _ _ => rfl⟩
  refine ⟨⟨k, hinserted⟩, h.modify hs₀ hgrows hsound (fun e' he' href => ⟨?_, rfl⟩) ?_⟩
  · obtain rfl := h.eq_of_ref hs₀ he he' href
    exact { hsaved.mono hgrows with
      row := fun _ => ⟨k, row, hinserted.key, hinserted.row?_eq, hmodel⟩
      stored := fun h' => absurd (show e'.isStored = true from h') (by simp [hstored])
      loose := fun h' => by
        have hmember : e'.isMember = false := h'
        cases hph : e'.phase <;> simp_all [Entry.isMember, Entry.isPending] }
  · -- The number of the new row is that of no row from before.
    intro e' he' href e'' he'' hne _ hk' hroot heq
    obtain rfl := h.eq_of_ref hs₀ he he' href
    obtain ⟨j, r, hj, hr, -⟩ := (h.saved _ he'').row hk'
    obtain rfl : k = j := by
      have heq' : e'.model.keyNames.map (Row.get row) = e''.key := heq
      rw [hinserted.key, hj] at heq'
      simpa using heq'
    rw [← hroot, hnone] at hr
    cases hr

/-- The changed cells of a stored record are written. -/
theorem update (hstored : e.isStored = true) {k : Int} (hk : e.key = [.int k]) {row : Row}
    (hrow : s.db.row? e.model.rootTable k = some row) {db' : Database}
    (hupd : s.db.update e.model.rootTable e.key (Act.changedCells e e.model.rootTable row) =
      .ok db') :
    (∃ new, e.Updated s.db db' k row new) ∧
      c.Saving s₀ (({ s with db := db' } : Session).modify e.ref fun e' =>
        { e' with key := e'.model.keyNames.map fun k => (e'.given? k).getD (Row.get row k) }) := by
  have hsaved := h.saved _ he
  rw [hk] at hupd
  obtain ⟨hsound, old, new, hold, hrows, hcells⟩ := h.sound.update hp hupd fun t' ht' =>
    h.sound.fits_of_writes hp hsaved.model hsaved.built ht'
      (hsaved.writes_changedCells e.model.rootTable row)
  obtain rfl := Option.some.inj (hrow.symm.trans hold)
  have hupdated : e.Updated s.db db' k row new := by
    obtain ⟨-, -, -, hid⟩ := h.sound.row?_eq_some.1 hrow
    refine ⟨?_, by rw [hrows, if_pos ⟨rfl, rfl⟩], fun name j hne => by rw [hrows, if_neg hne],
      hcells⟩
    simp [hp.keyNames _ hsaved.model, hsaved.given?_id hp h.sound, hid, hk]
  have hgrows : c.Grows s.db db' := by
    intro name j r hr
    by_cases hsame : name = e.model.rootTable ∧ j = k
    · obtain ⟨rfl, rfl⟩ := hsame
      obtain rfl := Option.some.inj (hrow.symm.trans hr)
      refine ⟨new, hupdated.row, fun m hm hroot => modelOfRow_congr fun n hn => ?_⟩
      exact hsaved.kind_updated hp h.sound hk hrow hupdated
        (hp.sameKind m hm e.model hsaved.model hroot ▸ hn)
    · exact ⟨r, (hupdated.others name j hsame).trans hr, fun _ _ _ => rfl⟩
  refine ⟨⟨new, hupdated⟩, h.modify hs₀ hgrows hsound (fun e' he' href => ⟨?_, rfl⟩) ?_⟩
  · obtain rfl := h.eq_of_ref hs₀ he he' href
    rw [hupdated.key]
    exact hsaved.mono hgrows
  · intro e' he' href e'' he'' hne _ hk' hroot
    obtain rfl := h.eq_of_ref hs₀ he he' href
    rw [hupdated.key]
    exact h.key_ne he' he'' (fun heq => hne (heq.symm.trans href)) (by simp [hk]) hk' hroot

end Saving

end Catalog

end Hypermedia
