import Hypermedia.Proofs.Session.Mapping
import Hypermedia.Proofs.Session.Removing
import Hypermedia.Proofs.Session.Storing
import Hypermedia.Proofs.Session.Tracing

/-!
# What a writing leaves as it is

Every row stays, with the same in its columns. Only columns that refer to other records may
change, and those of stored records that were given something (`Entry.Within`,
`Catalog.Frames`); this holds after each step of a writing (`Catalog.Framed.writing`).

A column that nobody may give anything has its default in every row (`Catalog.Sealed`,
`Database.Has`). A new row gets the default, and what is written later leaves it there
(`Catalog.Sealing.writing`).

A session in which clients give something to records is confined to what they may give
(`Catalog.Confined`), and while they change a stored record it stays that of its row
(`Catalog.Revising`).
-/

namespace Hypermedia

/-- A stored record was given something only in columns that may change: `A` says which, by the
table, the number of the row and the name of the column. -/
def Entry.Within (A : String → Int → String → Prop) (e : Entry) : Prop :=
  e.isStored = true → ∀ v ∈ e.values, ∃ k, e.key = [.int k] ∧ A e.model.rootTable k v.1

theorem Entry.stable_within (A : String → Int → String → Prop) (n : Nat) :
    Entry.Stable n (Entry.Within A) where
  alike := fun h _ hmodel hst hkey hvalues hst' => by
    rw [hmodel, hkey, hvalues]
    exact h (hst ▸ hst')
  known := fun _ _ hvalues _ => by simp [hvalues]

/-- A record of a table was given nothing in a column. -/
def Entry.Spares (table column : String) (e : Entry) : Prop :=
  e.model.rootTable = table → ∀ v ∈ e.values, v.1 ≠ column

theorem Entry.stable_spares (table column : String) (n : Nat) :
    Entry.Stable n (Entry.Spares table column) where
  alike := fun h _ hmodel _ _ hvalues hroot => by
    rw [hvalues]
    exact h (hmodel ▸ hroot)
  known := fun _ _ hvalues _ => by simp [hvalues]

/-- The record of a reference is in a table, under a number. -/
def Entry.Pinned (r : Ref) (table : String) (k : Int) (e : Entry) : Prop :=
  e.ref = r → e.model.rootTable = table ∧ e.key = [.int k]

theorem Entry.stable_pinned (r : Ref) (table : String) (k : Int) :
    Entry.Stable (r.number + 1) (Entry.Pinned r table k) where
  alike := fun h href hroot _ hkey _ href' => by
    rw [hroot, hkey]
    exact h (href ▸ href')
  known := fun hn _ _ href => absurd (href ▸ hn) (Nat.not_succ_le_self _)

/-- In a column of a table every row has the same. -/
def Database.Has (table column : String) (v : Value) (db : Database) : Prop :=
  ∀ k row, db.row? table k = some row → Row.get row column = v

namespace Catalog

/-- The rows of a database are in another one, with the same in all columns but those that
refer to other records and those that may change. -/
def Frames (c : Catalog) (A : String → Int → String → Prop) (D db : Database) : Prop :=
  ∀ t ∈ c.tables, ∀ k row, D.row? t.name k = some row → ∃ row', db.row? t.name k = some row' ∧
    ∀ x ∈ t.columns, x.refersTo = none → ¬A t.name k x.name →
      Row.get row' x.name = Row.get row x.name

theorem Frames.refl (c : Catalog) (A : String → Int → String → Prop) (D : Database) :
    c.Frames A D D :=
  fun _ _ _ row hrow => ⟨row, hrow, fun _ _ _ _ => rfl⟩

theorem Frames.mono {c : Catalog} {A A' : String → Int → String → Prop} {D db : Database}
    (h : c.Frames A D db) (hA : ∀ table k column, A table k column → A' table k column) :
    c.Frames A' D db := by
  intro t ht k row hrow
  obtain ⟨row', hrow', hsame⟩ := h t ht k row hrow
  exact ⟨row', hrow', fun x hx href hno => hsame x hx href fun hyes => hno (hA _ _ _ hyes)⟩

/-- A session that is writing: apart from references, a stored record is given something only in
columns that may change, and the rows from before stay as they are in all other columns. -/
structure Framed (c : Catalog) (A : String → Int → String → Prop) (s₀ s : Session) : Prop extends
    c.Saving s₀ s where
  within : ∀ e ∈ s.entries, e.isStored = true → ∀ v ∈ e.values,
    (∃ x, e.model.column? v.1 = some x ∧ x.column.refersTo.isSome = true) ∨
      ∃ k, e.key = [.int k] ∧ A e.model.rootTable k v.1
  frames : c.Frames A s₀.db s.db

/-- Every step of a writing leaves the other columns as they are. -/
theorem Framed.writing {c : Catalog} {D : Database} {A : String → Int → String → Prop}
    {s₀ : Session} (hp : c.Plain) (hs₀ : c.Drafts D s₀) : c.Writing s₀ (c.Framed A s₀) where
  saving := Framed.toSaving
  refer := by
    intro s e column v h he hmember hv _
    refine ⟨h.toSaving.refer hs₀ he hmember hv, fun e' he' hst w hw => ?_, h.frames⟩
    obtain ⟨e₁, he₁, ⟨href, rfl⟩ | ⟨-, rfl⟩⟩ := Session.mem_modify he'
    · rcases List.mem_append.1 hw with hw | hw
      · exact h.within e₁ he₁ hst w (List.mem_filter.1 hw).1
      · obtain rfl := h.eq_of_ref hs₀ he he₁ href
        obtain ⟨x, table, hx, hto, -⟩ := hv
        rw [List.mem_singleton.1 hw]
        exact Or.inl ⟨x, hx, by simp [hto]⟩
    · exact h.within _ he₁ hst w hw
  insert := by
    intro s e db' row h he hpending hins
    obtain ⟨⟨k, hinserted⟩, hsaving⟩ := h.toSaving.insert hp hs₀ he hpending hins
    refine ⟨hsaving, fun e' he' hst w hw => ?_, fun t ht j row₀ hrow₀ => ?_⟩
    · obtain ⟨e₁, he₁, ⟨href, rfl⟩ | ⟨-, rfl⟩⟩ := Session.mem_modify he'
      · obtain rfl := h.eq_of_ref hs₀ he he₁ href
        have hst : e₁.isStored = true := hst
        cases hph : e₁.phase <;> simp_all [Entry.isPending, Entry.isStored]
      · exact h.within _ he₁ hst w hw
    · obtain ⟨row', hrow', hsame⟩ := h.frames t ht j row₀ hrow₀
      exact ⟨row', hinserted.kept hrow', hsame⟩
  update := by
    intro s e k row db' h he hst hk hrow hupd
    obtain ⟨⟨new, hupdated⟩, hsaving⟩ := h.toSaving.update hp hs₀ he hst hk hrow hupd
    refine ⟨hsaving, fun e' he' hst' w hw => ?_, fun t ht j row₀ hrow₀ => ?_⟩
    · obtain ⟨e₁, he₁, ⟨href, rfl⟩ | ⟨-, rfl⟩⟩ := Session.mem_modify he'
      · obtain rfl := h.eq_of_ref hs₀ he he₁ href
        rw [hupdated.key]
        exact h.within e₁ he hst w hw
      · exact h.within _ he₁ hst' w hw
    · obtain ⟨row', hrow', hsame⟩ := h.frames t ht j row₀ hrow₀
      by_cases hit : t.name = e.model.rootTable ∧ j = k
      swap
      · exact ⟨row', (hupdated.others _ _ hit).trans hrow', hsame⟩
      obtain ⟨hname, rfl⟩ := hit
      obtain rfl := Option.some.inj ((hname ▸ hrow').symm.trans hrow)
      refine ⟨new, hname ▸ hupdated.row, fun x hx href hno => ?_⟩
      obtain ⟨u, hu, humem, huname, -⟩ := h.sound.table hp (h.saved e he).model
      obtain rfl : t = u.emptied := List.inj_on_of_nodup_map hp.table_names ht
        (h.sound.emptied_mem humem) (hname.trans huname.symm)
      refine ((hupdated.cells u hu x hx).1 fun hmem => ?_).trans (hsame x hx href hno)
      -- What is written to the column was given to the record.
      rcases h.within e he hst _ (mem_of_given? (given?_of_changedCells hmem)) with
        ⟨y, hy, hto⟩ | ⟨j', hj', hyes⟩
      · have hshape := h.sound.shape_eq hp (h.saved e he).model hu hy hx rfl
        simp only [Column.shape, Prod.mk.injEq] at hshape
        rw [← hshape.2.2.2.2, href] at hto
        cases hto
      · obtain rfl : j = j' := by simpa [hk] using hj'
        exact hno (hname ▸ hyes)

/-- A column of texts of a table that no type lets clients write, and the default in it. -/
structure Sealed (c : Catalog) (reg : Registry) (table column text : String) : Prop where
  there : ∃ t ∈ c.tables, t.name = table ∧ ∃ x ∈ t.columns, x.name = column ∧ x.refersTo = none
  default : ∀ m ∈ c.models, m.rootTable = table → ∃ x, m.column? column = some x ∧
    x.column.type = .string ∧ x.column.refersTo = none ∧ x.column.default = some (.text text)
  kind : ∀ m ∈ c.models, m.rootTable = table → m.discriminator ≠ some column
  closed : ∀ m ∈ c.models, m.rootTable = table → ¬c.Opens reg m column

/-- That a model has a column of texts with a default can be checked. -/
theorem exists_textColumn {m : Model} {column text : String}
    (h : ((m.column? column).any fun x => x.column.type == .string && x.column.refersTo.isNone &&
      x.column.default.any (Value.text text == ·)) = true) :
    ∃ x, m.column? column = some x ∧ x.column.type = .string ∧ x.column.refersTo = none ∧
      x.column.default = some (.text text) := by
  obtain ⟨x, hx, hcolumn⟩ := (Option.any_eq_true _ _).1 h
  simp only [Bool.and_eq_true, beq_iff_eq, Option.isNone_iff_eq_none,
    Option.any_eq_true] at hcolumn
  obtain ⟨⟨htype, hto⟩, v, hv, htext⟩ := hcolumn
  exact ⟨x, hx, htype, hto, Value.text_beq_eq htext ▸ hv⟩

/-- A session that is writing, in which no record was given anything in a column of a table and
all rows have the default there. -/
structure Sealing (c : Catalog) (table column text : String) (s₀ s : Session) : Prop extends
    c.Saving s₀ s where
  spares : ∀ e ∈ s.entries, e.Spares table column
  has : s.db.Has table column (.text text)

section

variable {c : Catalog} {D : Database} {reg : Registry} {table column text : String}

/-- A record that was given nothing in such a column gets the default in a new row. -/
theorem Sealed.newCell (h : c.Sealed reg table column text) {e : Entry} (he : e.model ∈ c.models)
    (hroot : e.model.rootTable = table) (hspares : e.Spares table column) :
    ∃ x, e.model.column? column = some x ∧ x.column.type = .string ∧
      e.newCell x = some (.text text) := by
  obtain ⟨x, hx, htype, -, hdefault⟩ := h.default e.model he hroot
  have hname : x.column.name = column := by simpa using List.find?_some hx
  have hnone : e.given? column = none := by
    cases hg : e.given? column with
    | none => rfl
    | some v => exact absurd rfl (hspares hroot _ (mem_of_given? hg))
  exact ⟨x, hx, htype, by rw [Entry.newCell, hname, hnone, hdefault]⟩

/-- Every step of a writing leaves the default in the column. -/
theorem Sealing.writing {s₀ : Session} (hp : c.Plain) (hs₀ : c.Drafts D s₀)
    (hsealed : c.Sealed reg table column text) : c.Writing s₀ (c.Sealing table column text s₀) where
  saving := Sealing.toSaving
  refer := by
    intro s e name v h he hmember hv _
    refine ⟨h.toSaving.refer hs₀ he hmember hv, fun e' he' hroot w hw => ?_, h.has⟩
    obtain ⟨e₁, he₁, ⟨href, rfl⟩ | ⟨-, rfl⟩⟩ := Session.mem_modify he'
    · rcases List.mem_append.1 hw with hw | hw
      · exact h.spares e₁ he₁ hroot w (List.mem_filter.1 hw).1
      · obtain rfl := h.eq_of_ref hs₀ he he₁ href
        obtain ⟨x, _, hx, hto, -⟩ := hv
        obtain ⟨y, hy, -, hnone, -⟩ := hsealed.default _ (h.saved _ he).model hroot
        rw [List.mem_singleton.1 hw]
        rintro rfl
        obtain rfl := Option.some.inj (hx.symm.trans hy)
        simp [hto] at hnone
    · exact h.spares _ he₁ hroot w hw
  insert := by
    intro s e db' row h he hpending hins
    obtain ⟨⟨k, hinserted⟩, hsaving⟩ := h.toSaving.insert hp hs₀ he hpending hins
    refine ⟨hsaving, fun e' he' hroot w hw => ?_, fun j row' hrow' => ?_⟩
    · obtain ⟨e₁, he₁, ⟨-, rfl⟩ | ⟨-, rfl⟩⟩ := Session.mem_modify he'
      · exact h.spares e₁ he₁ hroot w hw
      · exact h.spares _ he₁ hroot w hw
    · have hrow' : db'.row? table j = some row' := hrow'
      rw [hinserted.rows] at hrow'
      split at hrow'
      · next hit =>
        obtain rfl := Option.some.inj hrow'
        obtain ⟨x, hx, htype, hnew⟩ :=
          hsealed.newCell (h.saved e he).model hit.1.symm (h.spares e he)
        exact (hinserted.cell hx hnew).text htype
      · exact h.has j row' hrow'
  update := by
    intro s e k row db' h he hst hk hrow hupd
    obtain ⟨⟨new, hupdated⟩, hsaving⟩ := h.toSaving.update hp hs₀ he hst hk hrow hupd
    refine ⟨hsaving, fun e' he' hroot w hw => ?_, fun j row' hrow' => ?_⟩
    · obtain ⟨e₁, he₁, ⟨-, rfl⟩ | ⟨-, rfl⟩⟩ := Session.mem_modify he'
      · exact h.spares e₁ he₁ hroot w hw
      · exact h.spares _ he₁ hroot w hw
    · have hrow' : db'.row? table j = some row' := hrow'
      by_cases hit : table = e.model.rootTable ∧ j = k
      swap
      · exact h.has j row' ((hupdated.others _ _ hit).symm.trans hrow')
      obtain ⟨rfl, rfl⟩ := hit
      obtain rfl := Option.some.inj (hupdated.row.symm.trans hrow')
      have hsaved := h.saved e he
      obtain ⟨x, hx, -⟩ := hsealed.default _ hsaved.model rfl
      obtain ⟨hkept, -⟩ := hsaved.cell_updated hp h.sound hupdated hx
      refine (hkept fun hmem => ?_).trans (h.has j row hrow)
      exact h.spares e he rfl _ (mem_of_given? (given?_of_changedCells hmem)) rfl

end

/-! ## What clients may give -/

/-- A record was given something only where clients may: a stored one where `A` says so, and none
of them in a sealed column. -/
structure Granted (c : Catalog) (reg : Registry) (A : String → Int → String → Prop) (e : Entry) :
    Prop where
  within : e.Within A
  spares : ∀ table column text, c.Sealed reg table column text → e.Spares table column

/-- Where all rows have the default in a sealed column they still have it. -/
def Retains (c : Catalog) (reg : Registry) (D db : Database) : Prop :=
  ∀ table column text, c.Sealed reg table column text → D.Has table column (.text text) →
    db.Has table column (.text text)

/-- A session that is writing what clients may give. -/
structure Granting (c : Catalog) (reg : Registry) (A : String → Int → String → Prop)
    (s₀ s : Session) : Prop extends c.Framed A s₀ s where
  traced : c.Traced s₀ s
  sealing : ∀ i : { i : String × String × String // c.Sealed reg i.1 i.2.1 i.2.2 ∧
    s₀.db.Has i.1 i.2.1 (.text i.2.2) }, c.Sealing i.1.1 i.1.2.1 i.1.2.2 s₀ s

variable {c : Catalog} {D : Database} {H : Ref → Prop} {reg : Registry}
  {A : String → Int → String → Prop} {s₀ s : Session}

theorem stable_granted (c : Catalog) (reg : Registry) (A : String → Int → String → Prop) (n : Nat) :
    Entry.Stable n (c.Granted reg A) where
  alike := fun h h1 h2 h3 h4 h5 => ⟨(Entry.stable_within A n).alike h.within h1 h2 h3 h4 h5,
    fun table column text hsealed =>
      (Entry.stable_spares table column n).alike (h.spares table column text hsealed)
        h1 h2 h3 h4 h5⟩
  known := fun h1 h2 h3 => ⟨(Entry.stable_within A n).known h1 h2 h3,
    fun table column _ _ => (Entry.stable_spares table column n).known h1 h2 h3⟩

theorem granted_of_nil {e : Entry} (h : e.values = []) : c.Granted reg A e :=
  ⟨fun _ => by simp [h], fun _ _ _ _ _ => by simp [h]⟩

/-- A record may be given a value that clients may write, if it is not stored or may change. -/
theorem Granted.setValue {e : Entry} (h : c.Granted reg A e) {name : String} {v : Value}
    (hopens : c.Opens reg e.model name)
    (hA : e.isStored = true → ∃ k, e.key = [.int k] ∧ A e.model.rootTable k name) :
    c.Granted reg A (e.setValue name v) := by
  refine ⟨fun hst w hw => ?_, fun table column text hsealed hroot w hw => ?_⟩ <;>
    rcases List.mem_append.1 hw with hw | hw
  · exact h.within hst w (List.mem_filter.1 hw).1
  · exact List.mem_singleton.1 hw ▸ hA hst
  · exact h.spares table column text hsealed hroot w (List.mem_filter.1 hw).1
  · rw [List.mem_singleton.1 hw]
    rintro rfl
    exact hsealed.closed _ hopens.mem hroot hopens

/-- New records are given only what clients may give. -/
theorem drafting_granted (hp : c.Plain) (hD : c.Sound D) :
    c.Drafting D (c.Opens reg) (c.Carrying D 0 (c.Granted reg A)) := by
  refine Carrying.drafting hp hD (stable_granted c reg A 0) (fun m hm number _ => ⟨?_, ?_⟩)
    fun e name v h hst hopens => h.setValue hopens
      fun hst' => (Bool.false_ne_true (hst.symm.trans hst')).elim
  · exact fun hst => nomatch hst
  · intro table column text hsealed hroot v hv
    rintro rfl
    simp only [Entry.built, Model.kindValues] at hv
    split at hv
    · next k i hk _ =>
      rw [List.mem_singleton.1 hv] at hsealed
      exact hsealed.kind m hm hroot hk
    · cases hv

/-- What clients may give can be written. -/
theorem Drafts.granting (hs : c.Drafts D s) (hp : c.Plain) (hD : c.Sound D)
    (h : ∀ e ∈ s.entries, c.Granted reg A e) : c.Yields s (c.Granting reg A s) := by
  refine Act.yields hp hs ?_ ⟨⟨hs.saving hD, fun e he hst v hv => Or.inr ((h e he).within hst v hv),
    .refl c A _⟩, hs.traced hD,
      fun i => ⟨hs.saving hD, fun e he => (h e he).spares _ _ _ i.2.1, i.2.2⟩⟩
  have hwriting := ((Framed.writing (A := A) hp hs).and (Traced.writing hp hs)).and_forall
    fun i : { i : String × String × String //
        c.Sealed reg i.1 i.2.1 i.2.2 ∧ s.db.Has i.1 i.2.1 (.text i.2.2) } =>
      Sealing.writing hp hs i.2.1
  exact
    { saving := fun h => h.toSaving
      refer := fun h he hm hv hn =>
        have h := hwriting.refer ⟨⟨h.toFramed, h.traced⟩, h.sealing⟩ he hm hv hn
        ⟨h.1.1, h.1.2, h.2⟩
      insert := fun h he hpending hins =>
        have h := hwriting.insert ⟨⟨h.toFramed, h.traced⟩, h.sealing⟩ he hpending hins
        ⟨h.1.1, h.1.2, h.2⟩
      update := fun h he hst hk hrow hupd =>
        have h := hwriting.update ⟨⟨h.toFramed, h.traced⟩, h.sealing⟩ he hst hk hrow hupd
        ⟨h.1.1, h.1.2, h.2⟩ }

/-- A session of drafts that holds records, and in which stored records were given only what `A`
says. -/
def Confined (c : Catalog) (reg : Registry) (D : Database) (H : Ref → Prop)
    (A : String → Int → String → Prop) (s : Session) : Prop :=
  c.Edited D H s ∧ c.Carrying D 0 (c.Granted reg A) s

theorem drafting_confined (hp : c.Plain) (hD : c.Sound D) (reg : Registry) (H : Ref → Prop)
    (A : String → Int → String → Prop) :
    c.Drafting D (c.Opens reg) (c.Confined reg D H A) :=
  (Edited.drafting hp hD _).and (drafting_granted hp hD)

/-- What was given in such a session can be written. -/
theorem Confined.granting (h : c.Confined reg D H A s) (hp : c.Plain) (hD : c.Sound D) :
    c.Yields s (c.Granting reg A s) :=
  h.1.toDrafts.granting hp hD h.2.carried

/-- The record of a reference stays in a table, under a number. -/
theorem drafting_pinned (hp : c.Plain) (hD : c.Sound D) (N : Model → String → Prop) (r : Ref)
    (table : String) (k : Int) :
    c.Drafting D N (c.Carrying D (r.number + 1) (Entry.Pinned r table k)) := by
  refine Carrying.drafting hp hD (Entry.stable_pinned r table k) (fun n _ number hn href => ?_)
    fun _ _ _ h _ _ href => h href
  have hnumber : number = r.number := congrArg Ref.number href
  exact absurd (hnumber ▸ hn) (Nat.not_succ_le_self _)

/-- A record that is known is the one of its row. -/
theorem Drafts.carrying_pinned (hs : c.Drafts D s) {r : Ref} {table : String} {k : Int}
    (hr : s.Holds r table k) : c.Carrying D (r.number + 1) (Entry.Pinned r table k) s := by
  obtain ⟨e, he, rfl, -, htable, hkey⟩ := hr
  refine ⟨hs, hs.numbers e he, fun e' he' href => ?_⟩
  obtain rfl := Session.eq_of_ref_eq hs.distinct he' he href
  exact ⟨htable, hkey⟩

/-- A session in which a stored record is given something: only what `A` says, while it stays the
record of its row. -/
def Revising (c : Catalog) (reg : Registry) (D : Database) (A : String → Int → String → Prop)
    (r : Ref) (table : String) (k : Int) (s : Session) : Prop :=
  c.Confined reg D (· = r) A s ∧ c.Carrying D (r.number + 1) (Entry.Pinned r table k) s

section

variable {r : Ref} {table : String} {k : Int}

theorem drafting_revising (hp : c.Plain) (hD : c.Sound D) :
    c.Drafting D (c.Opens reg) (c.Revising reg D A r table k) :=
  (drafting_confined hp hD reg _ A).and (drafting_pinned hp hD _ r table k)

/-- While nothing was given to any record, one that was found may be given something. -/
theorem Revising.of_holds (hs : c.Edited D (fun _ => False) s)
    (hnil : ∀ e ∈ s.entries, e.values = []) (hr : s.Holds r table k) :
    c.Revising reg D A r table k s := by
  obtain ⟨e, he, href, hst, -⟩ := id hr
  exact ⟨⟨href ▸ hs.hold he hst, hs.toDrafts, Nat.zero_le _,
    fun e' he' => granted_of_nil (hnil e' he')⟩, hs.toDrafts.carrying_pinned hr⟩

/-- The record may be given what clients may give, in a column that may change. -/
theorem Revising.give (hp : c.Plain) (h : c.Revising reg D A r table k s) {m : Model}
    (hm : c.model? r.model = some m) {name : String} {v : Value} (hv : Accepts m name v)
    (hopens : c.Opens reg m name) (hA : A table k name) :
    c.Revising reg D A r table k (s.modify r fun e => e.setValue name v) := by
  refine ⟨⟨h.1.1.give hp hm hv, h.1.2.give hp hm hv fun e he href hmodel => ?_⟩,
    h.2.give hp hm hv fun e he _ _ href => h.2.carried e he href⟩
  obtain ⟨rfl, hkey⟩ := h.2.carried e he href
  exact (h.1.2.carried e he).setValue (hmodel ▸ hopens) fun _ => ⟨k, hkey, hA⟩

end

theorem Retains.refl (c : Catalog) (reg : Registry) (D : Database) : c.Retains reg D D :=
  fun _ _ _ _ hhas => hhas

theorem Granting.retains (h : c.Granting reg A s₀ s) : c.Retains reg s₀.db s.db :=
  fun table column text hsealed hhas => (h.sealing ⟨(table, column, text), hsealed, hhas⟩).has

/-- A removal leaves sealed columns as they are. -/
theorem Fades.retains {D db : Database} {root : String} {k : Int} (h : c.Fades root k D db) :
    c.Retains reg D db := by
  intro table column text hsealed hhas k row hrow
  obtain ⟨t, ht, rfl, x, hx, rfl, hto⟩ := hsealed.there
  obtain ⟨row₀, hrow₀, hfade⟩ := h t ht k row hrow
  rcases hfade x hx with heq | ⟨hrefers, -⟩
  · exact heq.trans (hhas k row₀ hrow₀)
  · simp [hto] at hrefers

end Catalog

end Hypermedia
