import Hypermedia.Proofs.Graph.Admitting
import Hypermedia.Proofs.Session.Framing

/-!
# Writing under the rules

What is stored obeys the rules if every row that is gone was one that the rules for removals
have nothing against, every row with something new in a column that refers to no other record is
one that the rules for changes have nothing against, and every new row was made of something that
the rules for new records have nothing against (`Catalog.Obeys`). Storing a record that was judged
obeys them (`Catalog.Persisted.obeys`), and so does a removal (`Catalog.Lacks.obeys`).

A new row need not pass the rules for new records itself: they judge what the record is given, and
the store puts the default where nothing is given (`MappedColumn.Begins`).
-/

namespace Hypermedia

/-- What a column of a new row begins with, if `v` is given to the record. -/
structure MappedColumn.Begins (x : MappedColumn) (v w : Value) : Prop where
  given : v.isNull = false → x.column.Stores v w
  default : v.isNull = true → x.column.type ≠ .json → ∀ d ∈ x.column.default, x.column.Stores d w

/-- The row of a record begins with what the record was given. -/
theorem Entry.Fills.begins {c : Catalog} {e : Entry} {table : String} {row : Row}
    (h : e.Fills c table row) {name : String} {x : MappedColumn}
    (hx : e.model.column? name = some x) (hto : x.column.refersTo = none) :
    x.Begins (e.asGiven name) (Row.get row name) := by
  have hname : x.column.name = name := by simpa using List.find?_some hx
  constructor
  · intro hsome
    refine h.cell hx hto ?_
    cases hg : e.given? name with
    | none => simp [Entry.asGiven, hg, Value.isNull] at hsome
    | some v =>
      have hv : v.isNull = false := by simpa [Entry.asGiven, hg] using hsome
      simp [Entry.newCell, Entry.asGiven, hname, hg, hv]
  · intro hnull hjson d hd
    refine h.cell hx hto ?_
    cases hg : e.given? name with
    | none => simpa [Entry.newCell, hname, hg] using hd
    | some v =>
      have hv : v.isNull = true := by simpa [Entry.asGiven, hg] using hnull
      simpa [Entry.newCell, hname, hg, hv, hjson] using hd

namespace Catalog

/-- A row of a table is that of a record of a type. -/
structure RowHasType (c : Catalog) (reg : Registry) (table : String) (row : Row) (m : Model)
    (t : ResourceType) : Prop where
  mem : m ∈ c.models
  table : m.rootTable = table
  model : c.modelOfRow m row = .ok m
  type : reg.typeOf? m.recordClass = some t

/-- The rules of its type for a context have nothing against a row. -/
def Allows (c : Catalog) (reg : Registry) (book : RuleBook) (y : Context) (table : String)
    (row : Row) : Prop :=
  ∃ m t, c.RowHasType reg table row m t ∧ t.Passes book y (Row.get row)

/-- The rules of its type for new records have nothing against what a row began with. -/
def AllowsNew (c : Catalog) (reg : Registry) (book : RuleBook) (table : String) (row : Row) :
    Prop :=
  ∃ m t given, c.RowHasType reg table row m t ∧ t.Passes book .create given ∧
    ∀ name x, m.column? name = some x → x.column.refersTo = none →
      x.Begins (given name) (Row.get row name)

/-- A sound database was made of another one as the rules allow. -/
structure Obeys (c : Catalog) (reg : Registry) (book : RuleBook) (D db : Database) : Prop where
  sound : c.Sound db
  removed : ∀ t ∈ c.tables, ∀ k row, D.row? t.name k = some row → db.row? t.name k = none →
    c.Allows reg book .destroy t.name row
  changed : ∀ t ∈ c.tables, ∀ k row row', D.row? t.name k = some row →
    db.row? t.name k = some row' → ∀ x ∈ t.columns, x.refersTo = none →
      Row.get row' x.name ≠ Row.get row x.name → c.Allows reg book .update t.name row'
  added : ∀ t ∈ c.tables, ∀ k row, D.row? t.name k = none → db.row? t.name k = some row →
    c.AllowsNew reg book t.name row

variable {c : Catalog} {D db : Database} {reg : Registry} {book : RuleBook} {s t : Session}
  {r : Ref}

theorem Obeys.refl (hD : c.Sound D) (reg : Registry) (book : RuleBook) :
    c.Obeys reg book D D where
  sound := hD
  removed := fun _ _ _ _ hrow hnone => absurd (hnone.symm.trans hrow) nofun
  changed := fun _ _ _ _ _ hrow hrow' _ _ _ hne =>
    absurd (Option.some.inj (hrow'.symm.trans hrow) ▸ rfl) hne
  added := fun _ _ _ _ hnone hrow => absurd (hnone.symm.trans hrow) nofun

/-- What all rows have in a column that refers to no other record they have after a writing
that obeys the rules, if the rules see to it. -/
theorem Obeys.column (h : c.Obeys reg book D db) {u : Table} (hu : u ∈ c.tables) {x : Column}
    (hx : x ∈ u.columns) (hto : x.refersTo = none) {Q : Value → Prop}
    (hnew : ∀ row, c.AllowsNew reg book u.name row → Q (Row.get row x.name))
    (hupdate : ∀ row, c.Allows reg book .update u.name row → Q (Row.get row x.name))
    (hD : ∀ k row, D.row? u.name k = some row → Q (Row.get row x.name)) :
    ∀ k row, db.row? u.name k = some row → Q (Row.get row x.name) := by
  intro k row hrow
  cases hold : D.row? u.name k with
  | none => exact hnew row (h.added u hu k row hold hrow)
  | some old =>
    by_cases hsame : Row.get row x.name = Row.get old x.name
    · exact hsame ▸ hD k old hold
    · exact hupdate row (h.changed u hu k old row hold hrow x hx hto hsame)

/-- A removal obeys the rules if they have nothing against the row that it may remove. -/
theorem Lacks.obeys {root : String} {k : Int} (h : c.Lacks root k D db)
    (hallows : ∀ row, D.row? root k = some row → c.Allows reg book .destroy root row) :
    c.Obeys reg book D db where
  sound := h.sound
  removed := by
    intro u _ j row hrow hnone
    by_cases hit : u.name = root ∧ j = k
    · obtain ⟨hname, rfl⟩ := hit
      exact hname ▸ hallows row (hname ▸ hrow)
    · have hkept := h.rest u.name j (by simp [hrow]) hit
      simp [hnone] at hkept
  changed := by
    intro u hu j row row' hrow hrow' x hx hto hne
    obtain ⟨row₀, hrow₀, hfade⟩ := h.fades u hu j row' hrow'
    obtain rfl := Option.some.inj (hrow₀.symm.trans hrow)
    rcases hfade x hx with heq | ⟨hrefers, -⟩
    · exact absurd heq hne
    · simp [hto] at hrefers
  added := by
    intro u hu j row hnone hrow
    obtain ⟨row₀, hrow₀, -⟩ := h.fades u hu j row hrow
    exact absurd (hnone.symm.trans hrow₀) nofun

/-- The row of a record that a session knows is one of its type. -/
theorem Known.rowHasType {m : Model} {k : Int} {row : Row} (h : c.Known D s r m k row)
    (hp : c.Plain) (hs : c.Drafts D s) {t : ResourceType}
    (ht : reg.typeOf? m.recordClass = some t) :
    c.RowHasType reg m.rootTable row m t := by
  obtain ⟨e, he, rfl, hst, -, hkey⟩ := h.holds
  obtain rfl := hs.model_of_known? hp (hs.known?_eq he) h.mem h.name
  obtain ⟨j, row', hj, hrow', hmodel⟩ := (hs.draft e he).stored hst
  obtain rfl : j = k := by simpa [hj] using hkey
  obtain rfl := Option.some.inj (h.row.symm.trans hrow')
  exact ⟨h.mem, rfl, hmodel, ht⟩

section

variable {H : Ref → Prop} {A : String → Int → String → Prop}

/-- A session of drafts in which the rules have nothing against any new record, and stored records
were given only what `A` says. -/
def Judged (c : Catalog) (reg : Registry) (book : RuleBook) (D : Database) (H : Ref → Prop)
    (A : String → Int → String → Prop) (s : Session) : Prop :=
  c.Confined reg D H A s ∧ c.Admits D reg book True s

theorem Judged.editing (hp : c.Plain) (hD : c.Sound D) :
    c.Editing D (c.Judged reg book D H A) :=
  (drafting_confined hp hD reg H A).toEditing.and (Admits.editing hp hD)

variable (h : c.Persisted (c.Judged reg book D H A) (c.Granting reg A) s r t)

include h

/-- A stored record that is stored again is the same row. -/
theorem Persisted.key_eq {e₀ e : Entry} (he₀ : e₀ ∈ s.entries) (hst : e₀.isStored = true)
    (he : e ∈ t.entries) (href : e.ref = e₀.ref) : e.key = e₀.key := by
  obtain ⟨u, v, hu, hfrom, hgranting, -, hentries⟩ := h.written
  obtain ⟨e₁, he₁, hcommits⟩ := hentries e he
  obtain ⟨e₂, he₂, href₂, -, hkey, -, hphase⟩ := hfrom e₀ he₀
  have hmember : e₀.isMember = true := by
    cases hph : e₀.phase <;> simp_all [Entry.isStored, Entry.isMember]
  have hst₂ : e₂.isStored = true := by rwa [Session.isStored_congr (hphase hmember)]
  rw [hcommits.key, ← hkey]
  exact hgranting.traced.key_eq hu.1.1.toDrafts he₂ hst₂ he₁
    (hcommits.ref.symm.trans (href.trans href₂.symm))

/-- Storing a record that was judged obeys the rules, if they have nothing against the rows that
may change. -/
theorem Persisted.obeys (hx : c.Exposed reg book)
    (hallows : ∀ table k column row, A table k column → t.db.row? table k = some row →
      c.Allows reg book .update table row) : c.Obeys reg book D t.db := by
  obtain ⟨u, v, hu, -, hgranting, hdb, -⟩ := h.written
  have hD : u.db = D := hu.1.1.db
  have hframes : c.Frames A D t.db := hdb ▸ hD ▸ hgranting.frames
  refine ⟨h.sound, fun w hw k row hrow hnone => ?_,
    fun w hw k row row' hrow hrow' x hx' hto hne => ?_, fun w _ k row hnone hrow => ?_⟩
  · obtain ⟨row', hrow', -⟩ := hframes w hw k row hrow
    exact absurd (hnone.symm.trans hrow') nofun
  · obtain ⟨row₁, hrow₁, hsame⟩ := hframes w hw k row hrow
    obtain rfl := Option.some.inj (hrow₁.symm.trans hrow')
    by_contra hno
    exact hne (hsame x hx' hto fun hA => hno (hallows _ _ _ _ hA hrow'))
  · obtain ⟨e, he, hfills⟩ := hgranting.traced.added w.name k row (hdb ▸ hrow) (hD ▸ hnone)
    have hmem := (hu.1.1.draft e he).model
    obtain ⟨type, htype, -⟩ := hx.typeOf e.model hmem
    exact ⟨e.model, type, e.asGiven, ⟨hmem, hfills.table, hfills.model, htype⟩,
      hu.2.carried e he trivial hfills.unstored type htype, fun _ _ => hfills.begins⟩

end

end Catalog

end Hypermedia
