import Hypermedia.Proofs.Session.Flushing

/-!
# Where written rows come from

While a session writes, records keep what they were given in the columns that refer to no other
record, and stored records keep their keys. So a row that was not there before is that of a new
record, and has what the record was given before the writing (`Catalog.Traced.writing`).
-/

namespace Hypermedia

/-- The row is that of a record that was not stored: in the columns that refer to no other record
the store keeps what the record was given, or the default. -/
structure Entry.Fills (c : Catalog) (e : Entry) (table : String) (row : Row) : Prop where
  unstored : e.isStored = false
  table : e.model.rootTable = table
  model : c.modelOfRow e.model row = .ok e.model
  cell : ∀ {name x v}, e.model.column? name = some x → x.column.refersTo = none →
    e.newCell x = some v → x.column.Stores v (Row.get row name)

namespace Catalog

/-- A record is one from before the writing: it keeps what it was given, and its key if it was
stored. -/
structure Traces (e₀ e : Entry) : Prop where
  frame : e.frame = e₀.frame
  key : e₀.isStored = true → e.key = e₀.key
  given : ∀ name x, e₀.model.column? name = some x → x.column.refersTo = none →
    e.given? name = e₀.given? name

/-- A session that is writing: its records are those from before, and new rows are those of
records that were not stored. -/
structure Traced (c : Catalog) (s₀ s : Session) : Prop extends c.Saving s₀ s where
  traces : ∀ e ∈ s.entries, ∃ e₀ ∈ s₀.entries, Traces e₀ e
  added : ∀ table k row, s.db.row? table k = some row → s₀.db.row? table k = none →
    ∃ e₀ ∈ s₀.entries, e₀.Fills c table row

variable {c : Catalog} {D : Database} {s₀ s : Session} {e₀ e : Entry}

theorem Traces.refl (e : Entry) : Traces e e := ⟨rfl, fun _ => rfl, fun _ _ _ _ => rfl⟩

namespace Traces

variable (h : Traces e₀ e)

include h

theorem model : e.model = e₀.model := Entry.model_of_frame h.frame

theorem isStored : e.isStored = e₀.isStored :=
  Session.isStored_congr (Entry.phase_of_frame h.frame)

/-- A new row gets what it would have got before. -/
theorem newCell {name : String} {x : MappedColumn} (hx : e₀.model.column? name = some x)
    (hto : x.column.refersTo = none) : e.newCell x = e₀.newCell x := by
  have hname : x.column.name = name := by simpa using List.find?_some hx
  unfold Entry.newCell
  rw [hname, h.given name x hx hto]

/-- Filling in a reference leaves the record what it was given. -/
theorem setValue {column : String} {y : MappedColumn} (hy : e.model.column? column = some y)
    (hrefers : y.column.refersTo.isSome = true) (v : Value) : Traces e₀ (e.setValue column v) := by
  refine ⟨h.frame, h.key, fun name x hx hto => ?_⟩
  rw [Entry.given?_setValue, if_neg, h.given name x hx hto]
  -- The column that is filled in refers to other records, and this one does not.
  rintro rfl
  rw [h.model, hx] at hy
  obtain rfl := Option.some.inj hy
  simp [hto] at hrefers

/-- The row that is made of a new record is that of the record from before. -/
theorem fills (hnew : e.isStored = false) {row : Row}
    (hmodel : c.modelOfRow e.model row = .ok e.model)
    (hcell : ∀ {name x v}, e.model.column? name = some x → e.newCell x = some v →
      x.column.Stores v (Row.get row name)) : e₀.Fills c e.model.rootTable row where
  unstored := h.isStored ▸ hnew
  table := congrArg Model.rootTable h.model.symm
  model := h.model ▸ hmodel
  cell := fun hx hto hv => hcell (h.model.symm ▸ hx) ((h.newCell hx hto).trans hv)

end Traces

/-- The row of a record that is stored again was there before the writing. -/
theorem Traced.row?_eq_some (h : c.Traced s₀ s) (hs₀ : c.Drafts D s₀) (he : e ∈ s.entries)
    (hst : e.isStored = true) {k : Int} (hk : e.key = [.int k]) :
    ∃ row, s₀.db.row? e.model.rootTable k = some row := by
  obtain ⟨e₀, he₀, htraces⟩ := h.traces e he
  have hst₀ : e₀.isStored = true := htraces.isStored ▸ hst
  obtain ⟨i, row, hi, hrow, -⟩ := (hs₀.draft e₀ he₀).stored hst₀
  obtain rfl : i = k := by simpa [hi, hk] using (htraces.key hst₀).symm
  exact ⟨row, by rw [htraces.model, hs₀.db, hrow]⟩

/-- Drafts come from themselves. -/
theorem Drafts.traced (hs : c.Drafts D s) (hD : c.Sound D) : c.Traced s s where
  toSaving := hs.saving hD
  traces := fun e he => ⟨e, he, .refl e⟩
  added := fun _ _ _ hrow hnone => absurd (hnone.symm.trans hrow) nofun

/-- Every step of a writing leaves records what they were given. -/
theorem Traced.writing (hp : c.Plain) (hs₀ : c.Drafts D s₀) : c.Writing s₀ (c.Traced s₀) where
  saving := Traced.toSaving
  refer := by
    intro s e column v h he hmember hv _
    refine ⟨h.toSaving.refer hs₀ he hmember hv, fun e' he' => ?_, h.added⟩
    obtain ⟨e₁, he₁, ⟨href, rfl⟩ | ⟨-, rfl⟩⟩ := Session.mem_modify he'
    swap
    · exact h.traces _ he₁
    obtain rfl := h.eq_of_ref hs₀ he he₁ href
    obtain ⟨e₀, he₀, htraces⟩ := h.traces e₁ he₁
    obtain ⟨y, table, hy, hrefers, -⟩ := hv
    exact ⟨e₀, he₀, htraces.setValue hy (by simp [hrefers]) _⟩
  insert := by
    intro s e db' row h he hpending hins
    obtain ⟨⟨k, hinserted⟩, hsaving⟩ := h.toSaving.insert hp hs₀ he hpending hins
    obtain ⟨e₀, he₀, htraces⟩ := h.traces e he
    have hnew : e.isStored = false := by
      cases hph : e.phase <;> simp_all [Entry.isStored, Entry.isPending]
    refine ⟨hsaving, fun e' he' => ?_, fun table j row' hrow' hnone => ?_⟩
    · obtain ⟨e₁, he₁, ⟨href, rfl⟩ | ⟨-, rfl⟩⟩ := Session.mem_modify he'
      swap
      · exact h.traces _ he₁
      obtain rfl := h.eq_of_ref hs₀ he he₁ href
      have hnew₀ : e₀.isStored = false := htraces.isStored ▸ hnew
      exact ⟨e₀, he₀, htraces.frame, fun hst => absurd hst (by simp [hnew₀]), htraces.given⟩
    · have hrow' : db'.row? table j = some row' := hrow'
      rw [hinserted.rows] at hrow'
      split at hrow'
      · next hit =>
        obtain rfl := Option.some.inj hrow'
        have hmodel := (h.saved e he).modelOfRow_new hp h.sound hnew hinserted.cell
        exact ⟨e₀, he₀, hit.1 ▸ htraces.fills hnew hmodel hinserted.cell⟩
      · exact h.added table j row' hrow' hnone
  update := by
    intro s e k row db' h he hst hk hrow hupd
    obtain ⟨⟨new, hupdated⟩, hsaving⟩ := h.toSaving.update hp hs₀ he hst hk hrow hupd
    refine ⟨hsaving, fun e' he' => ?_, fun table j row' hrow' hnone => ?_⟩
    · obtain ⟨e₁, he₁, ⟨href, rfl⟩ | ⟨-, rfl⟩⟩ := Session.mem_modify he'
      swap
      · exact h.traces _ he₁
      obtain rfl := h.eq_of_ref hs₀ he he₁ href
      obtain ⟨e₀, he₀, htraces⟩ := h.traces e₁ he₁
      exact ⟨e₀, he₀, htraces.frame, fun hst₀ => hupdated.key.trans (htraces.key hst₀),
        htraces.given⟩
    · have hrow' : db'.row? table j = some row' := hrow'
      by_cases hit : table = e.model.rootTable ∧ j = k
      swap
      · exact h.added table j row' ((hupdated.others table j hit).symm.trans hrow') hnone
      -- The row of a stored record was there before.
      obtain ⟨rfl, rfl⟩ := hit
      obtain ⟨row₀, hrow₀⟩ := h.row?_eq_some hs₀ he hst hk
      rw [hrow₀] at hnone
      cases hnone

/-- A record that was stored and is stored again is the same row. -/
theorem Traced.key_eq (h : c.Traced s₀ s) (hs₀ : c.Drafts D s₀) (he₀ : e₀ ∈ s₀.entries)
    (hst : e₀.isStored = true) (he : e ∈ s.entries) (href : e.ref = e₀.ref) : e.key = e₀.key := by
  obtain ⟨e₁, he₁, htraces⟩ := h.traces e he
  obtain rfl := Session.eq_of_ref_eq hs₀.distinct he₁ he₀
    ((Entry.ref_of_frame htraces.frame).symm.trans href)
  exact htraces.key hst

end Catalog

end Hypermedia
