import Hypermedia.Proofs.Session.Quiet

/-!
# Commits of drafts

A commit of a session of drafts, none of which is to be deleted, writes all of them or fails
and leaves what was committed before (`Act.ends_commit`). Afterwards the session is quiet
over a sound database, every record that was to be stored has a row, and texts that clients
gave to the columns of stored records are in their rows. Whatever else the writing yields
(`Catalog.Yields`) holds of the session that was committed.
-/

namespace Hypermedia

/-- What the row of a record has in a column. -/
def Entry.shown (e : Entry) (D : Database) (name : String) : Value :=
  ((e.row? D).map (Row.get · name)).getD .null

theorem Entry.shown_eq {e : Entry} {D : Database} {k : Int} {row : Row} (hk : e.key = [.int k])
    (hrow : D.row? e.model.rootTable k = some row) (name : String) :
    e.shown D name = Row.get row name := by
  simp [shown, Entry.row?_eq_some hk, hrow]

/-- What a stored record was given in a column, and what its row has there, are like `P`. -/
def Session.Shows (r : Ref) (name : String) (P : Option Value → Value → Prop) (s : Session) :
    Prop :=
  ∀ e ∈ s.entries, e.ref = r → e.isStored = true → P (e.given? name) (e.shown s.db name)

/-- What a row with `u` in a column has there after what a record was given is written. -/
inductive Column.Written (x : Column) (u : Value) : Option Value → Value → Prop
  | kept : Written x u none u
  | same {v : Value} (h : (v == u) = true) : Written x u (some v) u
  | stored {v w : Value} (h : x.Stores v w) : Written x u (some v) w

namespace Catalog

variable {c : Catalog} {D : Database} {H : Ref → Prop} {s₀ s : Session}

/-- A changed cell is one that the record was given. -/
theorem given?_of_changedCells {e : Entry} {table : String} {row : Row} {name : String}
    (h : name ∈ Row.names (Act.changedCells e table row)) :
    e.given? name = some (Row.get (Act.changedCells e table row) name) := by
  obtain ⟨x, -, hcell⟩ := List.mem_filterMap.1 (Row.get_mem h)
  split at hcell
  · next v hv =>
    split at hcell
    · cases hcell
    · simp only [Option.some.injEq, Prod.mk.injEq] at hcell
      rw [← hcell.1, hv, hcell.1, hcell.2]
      rfl
  · cases hcell

/-- What a record was given and is not to be written is in its row already. -/
theorem written_of_not_mem (hp : c.Plain) {e : Entry} (he : e.model ∈ c.models) {row : Row}
    {name : String} {x : MappedColumn} (hx : e.model.column? name = some x)
    (h : name ∉ Row.names (Act.changedCells e e.model.rootTable row)) :
    x.column.Written (Row.get row name) (e.given? name) (Row.get row name) := by
  cases hg : e.given? name with
  | none => exact .kept
  | some v =>
    refine .same ?_
    by_contra hne
    have hmem := List.mem_of_find?_eq_some hx
    have hname : x.column.name = name := by simpa using List.find?_some hx
    refine h (List.mem_map.2 ⟨(name, v), List.mem_filterMap.2 ⟨x, ?_, ?_⟩, rfl⟩)
    · exact List.mem_filter.2 ⟨hmem, by simp [hp.columns _ he x hmem]⟩
    · rw [hname, hg]
      exact if_neg hne

/-- A record shows the same as long as its row stays. -/
theorem Saved.shown_eq {db db' : Database} {e : Entry} (he : c.Saved db e) (hkey : e.key ≠ [])
    (hkept : ∀ k r, e.key = [.int k] → db.row? e.model.rootTable k = some r →
      db'.row? e.model.rootTable k = some r) (name : String) :
    e.shown db' name = e.shown db name := by
  obtain ⟨k, r, hk, hrow, -⟩ := he.row hkey
  rw [Entry.shown_eq hk hrow, Entry.shown_eq hk (hkept k r hk hrow)]

/-- A record shows the same after the row of another one is written. -/
theorem Saving.shown_updated (h : c.Saving s₀ s) {e e' : Entry} (he : e ∈ s.entries)
    (he' : e' ∈ s.entries) (hne : e'.ref ≠ e.ref) {k : Int} (hk : e.key = [.int k])
    {db' : Database} {row new : Row} (hupdated : e.Updated s.db db' k row new)
    (hkey : e'.key ≠ []) (name : String) : e'.shown db' name = e'.shown s.db name := by
  refine (h.saved e' he').shown_eq hkey (fun j r hj hr => ?_) name
  refine (hupdated.others _ _ ?_).trans hr
  rintro ⟨hroot, rfl⟩
  exact h.key_ne he' he hne hkey (by simp [hk]) hroot (hj.trans hk.symm)

/-- The changed cells of a record are written to its row, and those of others stay. -/
theorem Saving.update_shown (hp : c.Plain) (h : c.Saving s₀ s) (hs₀ : c.Drafts D s₀) {e : Entry}
    (he : e ∈ s.entries) (hst : e.isStored = true) {k : Int} (hk : e.key = [.int k]) {row : Row}
    (hrow : s.db.row? e.model.rootTable k = some row) {db' : Database}
    (hupd : s.db.update e.model.rootTable e.key (Act.changedCells e e.model.rootTable row) =
      .ok db') {e' : Entry}
    (he' : e' ∈ (({ s with db := db' } : Session).modify e.ref fun e' =>
      { e' with key := e'.model.keyNames.map fun k => (e'.given? k).getD (Row.get row k) }).entries)
    (hst' : e'.isStored = true) {name : String} {x : MappedColumn}
    (hx : e'.model.column? name = some x) :
    ∃ e₁ ∈ s.entries, e₁.ref = e'.ref ∧ e₁.isStored = true ∧ e₁.given? name = e'.given? name ∧
      (e₁.ref ≠ e.ref ∧ e'.shown db' name = e₁.shown s.db name ∨
        x.column.Written (e₁.shown s.db name) (e₁.given? name) (e'.shown db' name)) := by
  obtain ⟨⟨new, hupdated⟩, -⟩ := h.update hp hs₀ he hst hk hrow hupd
  obtain ⟨e₁, he₁, ⟨href₁, rfl⟩ | ⟨hne, rfl⟩⟩ := Session.mem_modify he'
  · obtain rfl := h.eq_of_ref hs₀ he he₁ href₁
    refine ⟨e₁, he, rfl, hst, rfl, Or.inr ?_⟩
    rw [hupdated.key, Entry.shown_eq hk hrow]
    change x.column.Written _ _ (e₁.shown db' name)
    rw [Entry.shown_eq hk hupdated.row]
    have hsaved := h.saved _ he
    have hx : e₁.model.column? name = some x := hx
    obtain ⟨hkept, hstored⟩ := hsaved.cell_updated hp h.sound hupdated hx
    by_cases hmem : name ∈ Row.names (Act.changedCells e₁ e₁.model.rootTable row)
    · rw [given?_of_changedCells hmem]
      exact .stored (hstored hmem)
    · rw [hkept hmem]
      exact written_of_not_mem hp hsaved.model hx hmem
  · exact ⟨e', he₁, rfl, hst', rfl, Or.inl ⟨hne,
      h.shown_updated he he₁ hne hk hupdated ((h.saved _ he₁).stored hst') name⟩⟩

section

variable (hs₀ : c.Drafts D s₀) (hp : c.Plain) {r : Ref} {m : Model} (hm : c.model? r.model = some m)
  {name : String} {x : MappedColumn} (hx : m.column? name = some x)
  {P : Option Value → Value → Prop}

include hs₀ hp hm hx

/-- Writing rows keeps what a stored record shows in a column if writing what it was given keeps
it. -/
theorem Drafts.rowWriting_shows (hwrite : ∀ g u w, P g u → x.column.Written u g w → P g w) :
    c.RowWriting s₀ fun s => c.Saving s₀ s ∧ s.Shows r name P where
  saving := And.left
  insert := by
    intro s e db' row ⟨h, hshow⟩ he hpending hins
    obtain ⟨⟨k, hinserted⟩, hsaving⟩ := h.insert hp hs₀ he hpending hins
    refine ⟨hsaving, fun e' he' href hstored => ?_⟩
    obtain ⟨e₁, he₁, ⟨href₁, rfl⟩ | ⟨-, rfl⟩⟩ := Session.mem_modify he'
    · obtain rfl := h.eq_of_ref hs₀ he he₁ href₁
      have hst : e₁.isStored = true := hstored
      cases hph : e₁.phase <;> simp [Entry.isStored, Entry.isPending, hph] at hst hpending
    · have hsaved := h.saved _ he₁
      have hsame := hsaved.shown_eq (hsaved.stored hstored)
        (fun _ _ _ hr => hinserted.kept hr) name
      change P (e'.given? name) (e'.shown db' name)
      exact hsame ▸ hshow _ he₁ href hstored
  update := by
    intro s e k row db' ⟨h, hshow⟩ he hst hk hrow hupd
    obtain ⟨-, hsaving⟩ := h.update hp hs₀ he hst hk hrow hupd
    refine ⟨hsaving, fun e' he' href hstored => ?_⟩
    have hmodel := (hsaving.saved _ he').model_eq hp (href ▸ hm)
    obtain ⟨e₁, he₁, href₁, hst₁, hgiven, ⟨-, heq⟩ | hwritten⟩ :=
      h.update_shown hp hs₀ he hst hk hrow hupd he' hstored (hmodel ▸ hx)
    · exact hgiven ▸ heq ▸ hshow e₁ he₁ (href₁.trans href) hst₁
    · exact hgiven ▸ hwrite _ _ _ (hshow e₁ he₁ (href₁.trans href) hst₁) hwritten

/-- A writing keeps what a stored record shows in a column if writing what it was given keeps
it, and giving it a reference. -/
theorem Drafts.writing_shows
    (hrefer : ∀ g u v, P g u → x.column.refersTo.isSome = true → (v = .null ∨ ¬s₀.Calm) →
      P (some v) u)
    (hwrite : ∀ g u w, P g u → x.column.Written u g w → P g w) :
    c.Writing s₀ fun s => c.Saving s₀ s ∧ s.Shows r name P where
  toRowWriting := hs₀.rowWriting_shows hp hm hx hwrite
  refer := by
    intro s e column v ⟨h, hshow⟩ he hmember hv hcalm
    refine ⟨h.refer hs₀ he hmember hv, fun e' he' href hstored => ?_⟩
    obtain ⟨e₁, he₁, ⟨href₁, rfl⟩ | ⟨-, rfl⟩⟩ := Session.mem_modify he'
    · obtain rfl := h.eq_of_ref hs₀ he he₁ href₁
      have hold := hshow e₁ he₁ href hstored
      rw [Entry.given?_setValue]
      split
      · next hname =>
        obtain ⟨y, table, hy, hto, -⟩ := hv
        have href : e₁.ref = r := href
        obtain rfl := (h.saved _ he).model_eq hp (href ▸ hm)
        rw [← hname, hx] at hy
        obtain rfl := Option.some.inj hy
        exact hrefer _ _ _ hold (by simp [hto]) (hcalm.imp_left And.left)
      · exact hold
    · exact hshow _ he₁ href hstored

end

/-- What the key of a record is like stays while the session writes, if a first key is like
that too. -/
theorem Drafts.writing_key (hs₀ : c.Drafts D s₀) (hp : c.Plain) (r : Ref) {P : List Value → Prop}
    (hP : ∀ e₀ ∈ s₀.entries, e₀.ref = r → e₀.isPending = true → ∀ k, P [.int k]) :
    c.Writing s₀ fun s => c.Saving s₀ s ∧ ∀ e ∈ s.entries, e.ref = r → P e.key where
  saving := And.left
  refer := by
    intro s e column v ⟨h, hkey⟩ he hmember hv _
    refine ⟨h.refer hs₀ he hmember hv, fun e' he' href => ?_⟩
    obtain ⟨e₁, he₁, ⟨-, rfl⟩ | ⟨-, rfl⟩⟩ := Session.mem_modify he'
    · exact hkey e₁ he₁ href
    · exact hkey _ he₁ href
  insert := by
    intro s e db' row ⟨h, hkey⟩ he hpending hins
    obtain ⟨⟨k, hinserted⟩, hsaving⟩ := h.insert hp hs₀ he hpending hins
    refine ⟨hsaving, fun e' he' href => ?_⟩
    obtain ⟨e₁, he₁, ⟨href₁, rfl⟩ | ⟨-, rfl⟩⟩ := Session.mem_modify he'
    · obtain rfl := h.eq_of_ref hs₀ he he₁ href₁
      obtain ⟨e₀, he₀, hframe⟩ := h.exists_frame he
      have hpending₀ : e₀.isPending = true := by
        rwa [Entry.isPending, ← Entry.phase_of_frame hframe]
      exact hinserted.key.symm ▸ hP e₀ he₀ ((Entry.ref_of_frame hframe).symm.trans href) hpending₀ k
    · exact hkey _ he₁ href
  update := by
    intro s e k row db' ⟨h, hkey⟩ he hst hk hrow hupd
    obtain ⟨⟨_, hupdated⟩, hsaving⟩ := h.update hp hs₀ he hst hk hrow hupd
    refine ⟨hsaving, fun e' he' href => ?_⟩
    obtain ⟨e₁, he₁, ⟨href₁, rfl⟩ | ⟨-, rfl⟩⟩ := Session.mem_modify he'
    · obtain rfl := h.eq_of_ref hs₀ he he₁ href₁
      exact hupdated.key.symm ▸ hkey e₁ he₁ href
    · exact hkey _ he₁ href

end Catalog

namespace Act

variable {c : Catalog} {D : Database} {H : Ref → Prop} {s₀ : Session} {es : List Entry}
  (hp : c.Plain) (hs₀ : c.Drafts D s₀) (hes : ∀ e ∈ es, e ∈ s₀.entries ∧ e.isMember = true)

include hp hs₀ hes

/-- What a stored record was given is in its row after its row is written. -/
theorem takes_updateRow {e₀ : Entry} (he₀ : e₀ ∈ es) (hst : e₀.isStored = true) {name : String}
    {x : MappedColumn} (hx : e₀.model.column? name = some x) {P Q : Option Value → Value → Prop}
    (hW : c.RowWriting s₀ fun s => c.Saving s₀ s ∧ s.Shows e₀.ref name P)
    (hQ : ∀ g u w, P g u → x.column.Written u g w → Q g w) :
    Takes (fun t => t.committed = s₀.committed) (fun s => c.Saving s₀ s ∧ s.Shows e₀.ref name P)
      (fun s => c.Saving s₀ s ∧ s.Shows e₀.ref name Q) (updateRow e₀.model.rootTable e₀.ref) := by
  intro s hs
  refine (ends_updateRow hp hs₀ hW hes hs he₀ hst
    fun e k row he hmodel hk hrow => ?_).imp (fun _ _ h => h) fun _ _ h => h.1.committed
  obtain ⟨hmem, href, hframe, -, -⟩ := of_known? hs₀ hW hes hs he₀ he
  have hst' : e.isStored = true :=
    (Session.isStored_congr (Entry.phase_of_frame hframe)).trans hst
  refine ⟨fun hnil => ⟨hs.1, fun e' he' href' hst'' => ?_⟩, fun db' hupd => ?_⟩
  · obtain rfl := hs.1.eq_of_ref hs₀ hmem he' (href'.trans href.symm)
    rw [Entry.shown_eq hk hrow]
    refine hQ _ _ _ (hs.2 e' hmem href' hst'') ?_
    rw [Entry.shown_eq hk hrow]
    exact Catalog.written_of_not_mem hp (hs.1.saved _ hmem).model (hmodel ▸ hx)
      (by rw [hnil]; simp [Row.names])
  · obtain ⟨-, hsaving⟩ := hs.1.update hp hs₀ hmem hst' hk hrow hupd
    refine ⟨hsaving, fun e' he' href' hst'' => ?_⟩
    have hframe' := hsaving.frame_eq hs₀ he' (hes e₀ he₀).1 href'
    obtain ⟨e₁, he₁, href₁, hst₁, hgiven, ⟨hne, -⟩ | hwritten⟩ :=
      hs.1.update_shown hp hs₀ hmem hst' hk hrow hupd he' hst''
        (Entry.model_of_frame hframe' ▸ hx)
    · exact absurd (href₁.trans (href'.trans href.symm)) hne
    · exact hgiven ▸ hQ _ _ _ (hs.2 e₁ he₁ (href₁.trans href') hst₁) hwritten

/-- A record that is to be stored has a key after its row is inserted. -/
theorem takes_insertRow {e₀ : Entry} (he₀ : e₀ ∈ es) (hpending : e₀.isPending = true) :
    Takes (fun t => t.committed = s₀.committed) (c.Saving s₀)
      (fun s => c.Saving s₀ s ∧ ∀ e ∈ s.entries, e.ref = e₀.ref → e.key ≠ [])
      (insertRow e₀.model.rootTable e₀.ref) := by
  intro s hs
  have hW := hs₀.writing hp
  refine (ends_insertRow hs₀ hW.toRowWriting hes hs he₀ fun e db' row he hmodel hins => ?_).imp
    (fun _ _ h => h) fun _ _ h => h.committed
  obtain ⟨hmem, href, hframe, -, -⟩ := of_known? hs₀ hW.toRowWriting hes hs he₀ he
  have hphase := Entry.phase_of_frame hframe
  refine ⟨(hs.insert hp hs₀ hmem (by simpa [Entry.isPending, hphase] using hpending) hins).2,
    fun e' he' href' => ?_⟩
  obtain ⟨e₁, he₁, ⟨-, rfl⟩ | ⟨hne, rfl⟩⟩ := Session.mem_modify he'
  · simp [hp.keyNames _ (hs.saved e₁ he₁).model]
  · exact absurd (href'.trans href.symm) hne

end Act

namespace Catalog

variable {c : Catalog} {D : Database} {H : Ref → Prop} {s₀ s : Session}

/-- What a record has in a column of texts that clients write. A torn text is not stored yet. -/
theorem Draft.cell_text (hp : c.Plain) (hD : c.Sound D) {e : Entry} (he : c.Draft D e)
    {name : String} {x : MappedColumn} (hx : e.model.column? name = some x)
    (hown : e.model.isOwn x.column = true) (htype : x.column.type = .string) :
    e.cell D name = .null ∨ (∃ s, e.cell D name = .text s) ∨ ∃ t, e.cell D name = .torn t := by
  unfold Entry.cell
  cases hg : e.given? name with
  | some v =>
    obtain ⟨y, hy, ⟨-, hv⟩ | ⟨hk, -⟩⟩ := he.value _ (mem_of_given? hg)
    · obtain rfl := Option.some.inj (hx.symm.trans hy)
      refine hv.imp id fun hv => ?_
      rw [htype] at hv
      cases v <;> simp_all [ColumnType.holds]
    · have hxname : x.column.name = name := by simpa using List.find?_some hx
      simp [Model.isOwn, hxname, show e.model.discriminator = some name from hk] at hown
  | none =>
    cases hstored : e.isStored with
    | false => simp [Entry.row?, he.unstored hstored]
    | true =>
      obtain ⟨k, row, hk, hrow, -⟩ := he.stored hstored
      rw [Option.getD_none, Entry.row?_eq_some hk, hrow]
      refine (hD.cell hp he.model hrow hx).2.imp And.left fun hkeeps => .inl ?_
      rw [htype] at hkeeps
      change ∃ s, Row.get row name = .text s
      cases hv : Row.get row name <;> rw [hv] at hkeeps <;> simp_all [ColumnType.keeps]

/-- What the writing of the changes of a session yields; it is there already if there are none. -/
structure Yields (c : Catalog) (s : Session) (W : Session → Prop) : Prop where
  saving : ∀ t, W t → c.Saving s t
  unchanged : Act.hasChanges s = false → W s
  written : Act.Ends (c.rootTables.forM (Act.saveTable (Act.involvedRecords s))) s
    (fun _ t => W t) fun _ t => t.committed = s.committed

/-- A session of drafts after its changes were written: every record that is to be stored has
a key, and texts that clients gave to stored records are in their rows. -/
structure Flushed (c : Catalog) (s₀ s : Session) : Prop where
  saving : c.Saving s₀ s
  keyed : ∀ e ∈ s.entries, e.isMember = true → e.key ≠ []
  text : ∀ e₀ ∈ s₀.entries, e₀.isStored = true → ∀ name x, e₀.model.column? name = some x →
    e₀.model.isOwn x.column = true → x.column.type = .string →
      s.Shows e₀.ref name fun _ u => u = e₀.cell s₀.db name

/-- A stored record shows what it has in a column where it was given nothing. -/
theorem Drafts.shows_self (hs : c.Drafts D s) {e₀ : Entry} (he₀ : e₀ ∈ s.entries) {name : String}
    (hnone : e₀.given? name = none) :
    s.Shows e₀.ref name fun g u => g.getD u = e₀.cell s.db name ∧ u = e₀.cell s.db name := by
  intro e he href _
  obtain rfl : e = e₀ := Session.eq_of_ref_eq hs.distinct he he₀ href
  simp [hnone, Entry.cell, Entry.shown]

/-- A session without changes is written as it is. -/
theorem Drafts.flushed_self (hs : c.Drafts D s) (hD : c.Sound D) (h : Act.hasChanges s = false) :
    c.Flushed s s := by
  have hno : ∀ e ∈ s.entries, e.isMember = true → e.isPending = false ∧ e.isChanged = false := by
    intro e he hmember
    have h := List.any_eq_false.1 h e he
    simp only [hmember, Bool.true_and, Bool.not_eq_true, Bool.or_eq_false_iff] at h
    exact ⟨h.1.1, h.2⟩
  refine ⟨hs.saving hD, fun e he hmember => ?_, fun e₀ he₀ hst name x _ _ _ => ?_⟩
  · refine ((hs.draft e he).saved).stored ?_
    have hpending := (hno e he hmember).1
    cases hph : e.phase <;> simp_all [Entry.isStored, Entry.isMember, Entry.isPending]
  · have hmember : e₀.isMember = true := by
      cases hph : e₀.phase <;> simp_all [Entry.isStored, Entry.isMember]
    have hchanged := (hno e₀ he₀ hmember).2
    simp only [Entry.isChanged, Bool.or_eq_false_iff, Bool.not_eq_false', List.isEmpty_iff]
      at hchanged
    have hnone : e₀.given? name = none := by simp [Entry.given?, hchanged.1, Fields.get?]
    exact fun e he href hstored => (hs.shows_self he₀ hnone e he href hstored).2

end Catalog

namespace Act

variable {c : Catalog} {D : Database} {H : Ref → Prop} {s : Session}

theorem mem_of_involvedRecords {e : Entry} (h : e ∈ involvedRecords s) :
    e ∈ s.entries ∧ e.isMember = true := by
  obtain ⟨he, hcond⟩ := List.mem_filter.1 h
  exact ⟨he, (Bool.and_eq_true_iff.1 hcond).1⟩

theorem involvedRecords_of_isDirty {e : Entry} (he : e ∈ s.entries) (h : isDirty e = true) :
    e ∈ involvedRecords s := by
  have hmember : e.isMember = true := by
    simp only [isDirty, Bool.and_eq_true] at h
    exact h.1.1
  exact List.mem_filter.2 ⟨he, by simp [h, hmember]⟩

variable (hp : c.Plain) (hD : c.Sound D) (hs : c.Edited D H s)

include hp hD hs

/-- Every record that is to be stored gets a key. -/
theorem ends_keyed {e₀ : Entry} (he₀ : e₀ ∈ s.entries) (hmember : e₀.isMember = true) :
    Ends (c.rootTables.forM (saveTable (involvedRecords s))) s
      (fun _ t => ∀ e ∈ t.entries, e.ref = e₀.ref → e.key ≠ [])
      fun _ t => t.committed = s.committed := by
  have hes := fun e (he : e ∈ involvedRecords s) => mem_of_involvedRecords he
  have hW := hs.toDrafts.writing hp
  have hJ := hs.toDrafts.writing_key (P := (· ≠ [])) hp e₀.ref fun _ _ _ _ k => List.cons_ne_nil _ _
  cases hpending : e₀.isPending with
  | true =>
    have hdirty : isDirty e₀ = true := by simp [isDirty, hmember, hs.kept e₀ he₀, hpending]
    have hmem := involvedRecords_of_isDirty he₀ hdirty
    have hnot : e₀.isStored = true → False := by
      cases hph : e₀.phase <;> simp_all [Entry.isStored, Entry.isPending]
    have hpassing := passing hp hs.toDrafts hW hes fun _ h => h.committed
    refine (takes_saveTables hp hs.toDrafts hes hpassing hpassing
      (passing hp hs.toDrafts hJ hes fun _ h => h.1.committed)
      ⟨hmem, hs.kept e₀ he₀, hpassing.referToAll e₀ hmem, ?_, ?_⟩ s
      (hs.toDrafts.saving hD)).imp (fun _ _ h => h.2) fun _ _ h => h
    · exact fun h => (hnot h).elim
    · exact fun _ => takes_insertRow hp hs.toDrafts hes hmem hpending
  | false =>
    have hstored : e₀.isStored = true := by
      cases hph : e₀.phase <;> simp_all [Entry.isStored, Entry.isMember, Entry.isPending]
    have hkey : ∀ e ∈ s.entries, e.ref = e₀.ref → e.key ≠ [] := by
      intro e he href
      obtain rfl : e = e₀ :=
        Session.eq_of_ref_eq hs.distinct he he₀ href
      exact (hs.draft e he).saved.stored hstored
    exact (keeps_saveTables hp hs.toDrafts hJ hes s
      ⟨hs.toDrafts.saving hD, hkey⟩).imp (fun _ _ h => h.1.2) fun _ _ h => h.1.committed

/-- Texts that clients gave to a stored record are written to its row. -/
theorem ends_text {e₀ : Entry} (he₀ : e₀ ∈ s.entries) (hst : e₀.isStored = true) {name : String}
    {x : MappedColumn} (hx : e₀.model.column? name = some x)
    (hown : e₀.model.isOwn x.column = true) (htype : x.column.type = .string) :
    Ends (c.rootTables.forM (saveTable (involvedRecords s))) s
      (fun _ t => t.Shows e₀.ref name fun _ u => u = e₀.cell s.db name)
      fun _ t => t.committed = s.committed := by
  have hes := fun e (he : e ∈ involvedRecords s) => mem_of_involvedRecords he
  have hdraft := hs.draft e₀ he₀
  have hm := hdraft.model?_eq hp
  have hno : x.column.refersTo.isSome = true → False := by
    simp only [Model.isOwn, Bool.not_eq_true', Bool.or_eq_false_iff] at hown
    simp [hown.1.2]
  have hcell := hs.db ▸ hdraft.cell_text hp hD hx hown htype
  generalize hw : e₀.cell s.db name = w at hcell
  -- What is written of a text is the text.
  have hwrite : ∀ g u v, g.getD u = w → x.column.Written u g v → g.getD v = w ∧ v = w := by
    rintro g u v hg (_ | hsame | hstores)
    · exact ⟨hg, hg⟩
    · subst hg
      rcases hcell with hnull | ⟨s, hs⟩ | ⟨t, ht⟩
      · exact ⟨rfl, (Value.null_beq_eq (hnull ▸ hsame)).trans hnull.symm⟩
      · exact ⟨rfl, (Value.text_beq_eq (hs ▸ hsame)).trans hs.symm⟩
      · exact ⟨rfl, (Value.torn_beq_eq (ht ▸ hsame)).trans ht.symm⟩
    · exact hg ▸ ⟨rfl, hstores.text htype⟩
  have hW := hs.toDrafts.writing_shows (P := fun g u => g.getD u = w) hp hm hx
    (fun _ _ _ _ h => (hno h).elim) fun g u v hg h => (hwrite g u v hg h).1
  have hJ := hs.toDrafts.writing_shows (P := fun g u => g.getD u = w ∧ u = w) hp hm hx
    (fun _ _ _ _ h => (hno h).elim) fun g u v hg h => hwrite g u v hg.1 h
  have hmember : e₀.isMember = true := by
    cases hph : e₀.phase <;> simp_all [Entry.isStored, Entry.isMember]
  cases hgiven : e₀.given? name with
  | none =>
    have hself := hw ▸ hs.toDrafts.shows_self he₀ hgiven
    exact (keeps_saveTables hp hs.toDrafts hJ hes s
      ⟨hs.toDrafts.saving hD, hself⟩).imp (fun _ _ h e he href hst => (h.1.2 e he href hst).2)
        fun _ _ h => h.1.committed
  | some v =>
    have hdirty : isDirty e₀ = true := by
      have hne := List.ne_nil_of_mem (Catalog.mem_of_given? hgiven)
      simp [isDirty, hmember, hs.kept e₀ he₀, Entry.isChanged, hne]
    have hmem := involvedRecords_of_isDirty he₀ hdirty
    have hnot : e₀.isPending = true → False := by
      cases hph : e₀.phase <;> simp_all [Entry.isStored, Entry.isPending]
    have hself : s.Shows e₀.ref name fun g u => g.getD u = w := by
      intro e he href _
      obtain rfl : e = e₀ :=
        Session.eq_of_ref_eq hs.distinct he he₀ href
      exact hw
    have hpassing := passing hp hs.toDrafts hW hes fun _ h => h.1.committed
    refine (takes_saveTables hp hs.toDrafts hes hpassing hpassing
      (passing hp hs.toDrafts hJ hes fun _ h => h.1.committed)
      ⟨hmem, hs.kept e₀ he₀, hpassing.referToAll e₀ hmem, ?_, ?_⟩ s
      ⟨hs.toDrafts.saving hD, hself⟩).imp (fun _ _ h e he href hst => (h.2 e he href hst).2)
        fun _ _ h => h
    · exact fun _ => takes_updateRow hp hs.toDrafts hes hmem hst hx hW.toRowWriting hwrite
    · exact fun h => (hnot h).elim

omit hD hs in
/-- What every step of the writing keeps is what it yields. -/
theorem yields {W : Session → Prop} (hs : c.Drafts D s) (hW : c.Writing s W) (hw : W s) :
    c.Yields s W where
  saving := fun _ => hW.saving
  unchanged := fun _ => hw
  written :=
    (keeps_saveTables hp hs hW (fun _ => mem_of_involvedRecords) s hw).imp
      (fun _ _ h => h.1) fun _ _ h => (hW.saving h).committed

variable {W : Session → Prop} (hW : c.Yields s W)

include hW

/-- Writing all tables writes the drafts, and yields what the writing of the tables does. -/
theorem ends_saveTables : Ends (c.rootTables.forM (saveTable (involvedRecords s))) s
    (fun _ t => c.Flushed s t ∧ W t) fun _ t => t.committed = s.committed := by
  have hdone := hW.written.imp (fun _ _ _ => trivial) fun _ _ h => h
  have hkeyed := ends_forall hdone fun e₀ : { e // e ∈ s.entries ∧ e.isMember = true } =>
    ends_keyed hp hD hs e₀.2.1 e₀.2.2
  have htext := ends_forall hdone fun i : { i : Entry × String × MappedColumn //
      i.1 ∈ s.entries ∧ i.1.isStored = true ∧ i.1.model.column? i.2.1 = some i.2.2 ∧
        i.1.model.isOwn i.2.2.column = true ∧ i.2.2.column.type = .string } =>
    ends_text hp hD hs i.2.1 i.2.2.1 i.2.2.2.1 i.2.2.2.2.1 i.2.2.2.2.2
  refine ((hW.written.and hkeyed).and htext).imp (fun _ t ⟨⟨hwt, hkeyed⟩, htext⟩ => ?_)
    fun _ _ h => h.1.1
  have h := hW.saving t hwt
  refine ⟨⟨h, fun e he hmember => ?_, fun e₀ he₀ hst name x hx hown htype => ?_⟩, hwt⟩
  · obtain ⟨e₀, he₀, hframe⟩ := h.exists_frame he
    have hmember₀ : e₀.isMember = true := by
      rwa [Entry.isMember, ← Entry.phase_of_frame hframe]
    exact hkeyed ⟨e₀, he₀, hmember₀⟩ e he (Entry.ref_of_frame hframe)
  · exact htext ⟨(e₀, name, x), he₀, hst, hx, hown, htype⟩

/-! ## Flush and commit -/

omit hp hD hs hW in
/-- No record is deleted because its owner let it go. -/
theorem ends_doomOrphans (hs : c.Drafts D s) {Q : Unit → Session → Prop}
    {E : Fault → Session → Prop} (hQ : Q () s) : Ends (doomOrphans c) s Q E := by
  unfold doomOrphans
  rw [ends_bind, ends_get]
  have hnone : (s.entries.filter fun e => e.isStored && e.lost.any Link.owns) = [] := by
    refine List.filter_eq_nil_iff.2 fun e he h => ?_
    obtain ⟨l, hl, howns⟩ := List.any_eq_true.1 (Bool.and_eq_true_iff.1 h).2
    rw [(hs.draft e he).lost l hl] at howns
    cases howns
  rw [hnone]
  exact hQ

omit hD hs hW in
/-- A plain catalog has no tables of pairs. -/
theorem ends_saveAllPairs {es : List Entry} {Q : Unit → Session → Prop}
    {E : Fault → Session → Prop} (hQ : Q () s) (hE : ∀ f, E f s) :
    Ends (saveAllPairs c es) s Q E := by
  have hkeeps : Keeps (· = s) (saveAllPairs c es) fun _ => True := by
    refine Keeps.bind (P := fun _ => True) (keeps_foldlM trivial fun done _ m hm => ?_)
      fun _ _ => keeps_pure trivial
    refine keeps_foldlM trivial fun done _ l hl => ?_
    refine (keeps_mapM (Q := fun _ => True) fun e _ => ?_).bind fun _ _ => keeps_pure trivial
    obtain ⟨t, -, hspec⟩ := hp.linkSpec hm hl
    unfold savePairs
    split
    · next table own other hk => exact absurd hk (hspec.pairs table own other)
    · exact keeps_pure trivial
  exact (hkeeps s rfl).imp (fun _ _ h => h.1 ▸ hQ) fun f _ h => h ▸ hE f

omit hp hD hW in
/-- Where no record is to be deleted nothing is read for that. -/
theorem ends_readDoomed {Q : Unit → Session → Prop} {E : Fault → Session → Prop} (hQ : Q () s) :
    Ends (readDoomed c) s Q E := by
  have hnone : s.entries.filter Entry.isDoomed = [] :=
    List.filter_eq_nil_iff.2 fun e he h => by simp [hs.kept e he] at h
  unfold readDoomed
  rw [ends_bind, ends_get, hnone]
  exact hQ

omit hp hD hW in
theorem deleteDoomed_eq (root : String) : deleteDoomed (involvedRecords s) root = pure () := by
  have hnone : (involvedRecords s).filter (fun e => e.isDoomed && e.model.rootTable == root) = [] :=
    List.filter_eq_nil_iff.2 fun e he h => by
      simp [hs.kept e (mem_of_involvedRecords he).1] at h
  unfold deleteDoomed
  rw [hnone]
  rfl

/-- Writing drafts writes their rows, or fails and leaves what was committed. -/
theorem ends_write : Ends (write c) s
    (fun _ t => ∃ u, (c.Flushed s u ∧ W u) ∧ t = { u with entries := u.entries.map settled })
    fun _ t => t.committed = s.committed := by
  unfold write
  rw [ends_bind]
  refine ends_doomOrphans hs.toDrafts ?_
  rw [ends_bind]
  refine ends_readDoomed hs ?_
  rw [ends_bind, ends_get]
  dsimp only
  rw [ends_bind]
  refine (ends_saveTables hp hD hs hW).imp (fun _ u hu => ?_) fun _ _ h => h
  rw [ends_bind]
  refine ends_saveAllPairs hp ?_ fun _ => hu.1.saving.committed
  rw [ends_bind]
  refine (ends_forM (I := (· = u)) rfl fun root _ t ht => ?_).imp (fun _ t ht => ?_) fun _ _ h => h
  · rw [deleteDoomed_eq hs]
    exact ht
  · subst ht
    exact ⟨t, hu, rfl⟩

/-- Drafts are written if there is anything to write. -/
theorem ends_flush : Ends (flush c) s
    (fun _ t => ∃ u, (c.Flushed s u ∧ W u) ∧ (t = u ∧ (∀ e ∈ u.entries, e.isPending = false) ∨
      t = { u with entries := u.entries.map settled })) fun _ t => t.committed = s.committed := by
  unfold flush
  rw [ends_bind, ends_get]
  dsimp only
  cases hchanges : hasChanges s with
  | false =>
    refine ⟨s, ⟨hs.toDrafts.flushed_self hD hchanges, hW.unchanged hchanges⟩,
      Or.inl ⟨rfl, fun e he => ?_⟩⟩
    have h := List.any_eq_false.1 hchanges e he
    cases hph : e.phase <;> simp_all [Entry.isMember, Entry.isPending]
  | true =>
    refine still_database.ends_bind (fun _ _ => ?_) fun _ => rfl
    rw [ends_tryCatch]
    refine (ends_write hp hD hs hW).imp (fun _ t h => ?_) fun f t ht => ?_
    · exact h.imp fun _ h => h.imp_right Or.inr
    · exact ht

end Act

namespace Catalog

variable {c : Catalog} {D : Database} {H : Ref → Prop} {s₀ s t : Session}

/-- A record after a commit: as it was if it is not to be stored, and else as it is stored. -/
structure Commits (e e' : Entry) : Prop where
  ref : e'.ref = e.ref
  model : e'.model = e.model
  key : e'.key = e.key
  lost : ∀ l ∈ e'.lost, l ∈ e.lost
  fresh : e.isMember = false → e' = e
  member : e.isMember = true → e'.phase = .stored false ∧ e'.values = [] ∧ e'.links = []

theorem Saved.commits_committed {db : Database} {e : Entry} (h : c.Saved db e)
    (hpending : e.isPending = false) : Commits e (Act.committed e) := by
  rcases h.phase with hph | ⟨n, hph⟩ | hph
  · have heq : Act.committed e = e := by simp [Act.committed, hph]
    refine ⟨by rw [heq], by rw [heq], by rw [heq], by simp [heq], fun _ => heq, ?_⟩
    simp [Entry.isMember, hph]
  · simp [Entry.isPending, hph] at hpending
  · have heq : Act.committed e = { e with phase := .stored false, values := [], links := [] } := by
      simp [Act.committed, hph]
    refine ⟨by rw [heq], by rw [heq], by rw [heq], by simp [heq], ?_, ?_⟩
    · simp [Entry.isMember, hph]
    · simp [heq]

theorem Saved.commits_settled {db : Database} {e : Entry} (h : c.Saved db e) :
    Commits e (Act.committed (Act.settled e)) := by
  rcases h.phase with hph | ⟨n, hph⟩ | hph
  · have heq : Act.committed (Act.settled e) = e := by simp [Act.committed, Act.settled, hph]
    refine ⟨by rw [heq], by rw [heq], by rw [heq], by simp [heq], fun _ => heq, ?_⟩
    simp [Entry.isMember, hph]
  all_goals
    have heq : Act.committed (Act.settled e) =
        { e with phase := .stored false, values := [], links := [], lost := [] } := by
      simp [Act.committed, Act.settled, hph]
    refine ⟨by rw [heq], by rw [heq], by rw [heq], by simp [heq], ?_, ?_⟩
    · simp [Entry.isMember, hph]
    · simp [heq]

/-- What is stored after a commit is what was to be stored. -/
theorem Commits.isStored_eq {e e' : Entry} (h : Commits e e') : e'.isStored = e.isMember := by
  cases hm : e.isMember with
  | true => simp [Entry.isStored, (h.member hm).1]
  | false =>
    rw [h.fresh hm]
    cases hph : e.phase <;> simp_all [Entry.isStored, Entry.isMember]

/-- After a commit a record is a draft over what was committed. -/
theorem Flushed.draft (h : c.Flushed s₀ s) (hs₀ : c.Edited D H s₀) {e e' : Entry}
    (he : e ∈ s.entries) (hcommits : Commits e e') : c.Draft s.db e' := by
  have hsaved := h.saving.saved e he
  obtain ⟨e₀, he₀, hframe⟩ := h.saving.exists_frame he
  have hdraft₀ := hs₀.draft e₀ he₀
  have hlost : ∀ l ∈ e'.lost, l.owns = false := fun l hl =>
    hdraft₀.lost l (Entry.lost_of_frame hframe ▸ hcommits.lost l hl)
  have hstored := hcommits.isStored_eq
  cases hm : e.isMember with
  | false =>
    rw [hm] at hstored
    rw [hcommits.fresh hm] at hlost hstored ⊢
    exact
      { model := hsaved.model, name := hsaved.name, built := hsaved.built, phase := hsaved.phase
        stored := fun h => absurd h (by simp [hstored])
        unstored := fun _ => (hsaved.loose hm).1
        kind := hsaved.kind
        value := (hsaved.loose hm).2
        link := Entry.links_of_frame hframe ▸ Entry.model_of_frame hframe ▸ hdraft₀.link
        lost := hlost }
  | true =>
    rw [hm] at hstored
    obtain ⟨hphase, hvalues, hlinks⟩ := hcommits.member hm
    exact
      { model := hcommits.model ▸ hsaved.model
        name := by rw [hcommits.ref, hcommits.model]; exact hsaved.name
        built := hcommits.model ▸ hsaved.built
        phase := Or.inr (Or.inr hphase)
        stored := fun _ => by
          rw [hcommits.key, hcommits.model]
          exact hsaved.row (h.keyed e he hm)
        unstored := fun h => absurd h (by simp [hstored])
        kind := fun h => absurd h (by simp [hstored])
        value := by simp [hvalues]
        link := by simp [hlinks]
        lost := hlost }

/-- After a commit a session is quiet. -/
theorem Flushed.quiet (h : c.Flushed s₀ s) (hs₀ : c.Edited D H s₀) {g : Entry → Entry}
    (hg : ∀ e ∈ s.entries, Commits e (g e)) :
    c.Quiet s.db { s with committed := s.db, entries := s.entries.map g } := by
  have hkey : ∀ e ∈ s.entries, (g e).isStored = true → e.key ≠ [] := fun e he hst =>
    h.keyed e he ((hg e he).isStored_eq ▸ hst)
  have hdrafts : c.Drafts s.db { s with committed := s.db, entries := s.entries.map g } :=
    { db := rfl, committed := rfl, failed := h.saving.failed, eager := h.saving.eager
      draft := List.forall_mem_map.2 fun e he => h.draft hs₀ he (hg e he)
      numbers := by
        refine List.forall_mem_map.2 fun e he => ?_
        obtain ⟨e₀, he₀, hframe⟩ := h.saving.exists_frame he
        rw [(hg e he).ref, Entry.ref_of_frame hframe]
        exact h.saving.next ▸ hs₀.numbers e₀ he₀
      distinct := by
        have hmap : (s.entries.map g).map (fun e => e.ref.number) =
            s.entries.map fun e => e.ref.number := by
          rw [List.map_map]
          exact List.map_congr_left fun e he => congrArg Ref.number (hg e he).ref
        exact hmap ▸ h.saving.numbers ▸ hs₀.distinct
      keys := by
        refine List.pairwise_map.2
          (h.saving.keys.imp_of_mem fun {a b} ha hb hab hsa hsb hroot => ?_)
        rw [(hg a ha).model, (hg b hb).model] at hroot
        rw [(hg a ha).key, (hg b hb).key]
        exact hab (hkey a ha hsa) (hkey b hb hsb) hroot }
  refine ⟨hdrafts, List.forall_mem_map.2 fun e he => ?_⟩
  cases hm : e.isMember with
  | true =>
    obtain ⟨-, hvalues, hlinks⟩ := (hg e he).member hm
    exact Or.inr ⟨(hg e he).isStored_eq.trans hm, hvalues, by simp [hlinks]⟩
  | false =>
    left
    rw [(hg e he).fresh hm]
    rcases (h.saving.saved e he).phase with hph | ⟨n, hph⟩ | hph <;>
      simp_all [Entry.isMember]

end Catalog

namespace Catalog

/-- What a commit makes of a session of drafts, if the writing keeps a property. -/
structure Committed (c : Catalog) (W : Session → Prop) (s t : Session) : Prop where
  sound : c.Sound t.db
  quiet : c.Quiet t.db t
  written : ∃ u, W u ∧ t.db = u.db ∧ ∀ e ∈ t.entries, ∃ e₀ ∈ u.entries, Commits e₀ e
  stored : ∀ e₀ ∈ s.entries, e₀.isMember = true →
    ∃ e ∈ t.entries, e.ref = e₀.ref ∧ e.isStored = true
  text : ∀ e₀ ∈ s.entries, e₀.isStored = true → ∀ name x, e₀.model.column? name = some x →
    e₀.model.isOwn x.column = true → x.column.type = .string →
      ∀ e ∈ t.entries, e.ref = e₀.ref → e.cell t.db name = e₀.cell s.db name

variable {c : Catalog} {D : Database} {H : Ref → Prop} {s u : Session}

theorem Flushed.committed {W : Session → Prop} (h : c.Flushed s u) (hw : W u) (hs : c.Edited D H s)
    {g : Entry → Entry} (hg : ∀ e ∈ u.entries, Commits e (g e)) :
    c.Committed W s { u with committed := u.db, entries := u.entries.map g } := by
  refine ⟨h.saving.sound, h.quiet hs hg, ⟨u, hw, rfl, List.forall_mem_map.2 fun e he =>
    ⟨e, he, hg e he⟩⟩, fun e₀ he₀ hmember => ?_, ?_⟩
  · have hmem : e₀.frame ∈ u.entries.map Entry.frame := h.saving.frame ▸ List.mem_map_of_mem he₀
    obtain ⟨e, he, hframe⟩ := List.mem_map.1 hmem
    refine ⟨g e, List.mem_map_of_mem he, (hg e he).ref.trans (Entry.ref_of_frame hframe), ?_⟩
    have hm : e.isMember = true := by rwa [Entry.isMember, Entry.phase_of_frame hframe]
    simp [Entry.isStored, ((hg e he).member hm).1]
  · intro e₀ he₀ hst name x hx hown htype e' he' href
    obtain ⟨e, he, rfl⟩ := List.mem_map.1 he'
    have href := (hg e he).ref.symm.trans href
    have hst' : e.isStored = true :=
      (Session.isStored_congr
        (Entry.phase_of_frame (h.saving.frame_eq hs.toDrafts he he₀ href))).trans hst
    have hm : e.isMember = true := by
      cases hph : e.phase <;> simp_all [Entry.isStored, Entry.isMember]
    have hshown := h.text e₀ he₀ hst name x hx hown htype e he href hst'
    rw [← hshown]
    obtain ⟨-, hvalues, -⟩ := (hg e he).member hm
    simp [Entry.cell, Entry.shown, Entry.row?, Entry.given?, hvalues, (hg e he).key,
      (hg e he).model, Fields.get?]

end Catalog

namespace Act

variable {c : Catalog} {D : Database} {H : Ref → Prop} {s : Session}

/-- Drafts are committed, or what was committed stays. -/
theorem ends_commit (hp : c.Plain) (hD : c.Sound D) (hs : c.Edited D H s) {W : Session → Prop}
    (hW : c.Yields s W) : Ends (commit c) s (fun _ t => c.Committed W s t)
      fun _ t => t.committed = s.committed := by
  unfold commit
  rw [ends_bind]
  refine (ends_flush hp hD hs hW).imp (fun _ t ⟨u, ⟨hu, hwu⟩, ht⟩ => ?_) fun _ _ h => h
  rcases ht with ⟨rfl, hno⟩ | rfl
  · refine still_database.ends_bind (fun _ _ => ?_) fun _ => hu.saving.committed
    exact hu.committed hwu hs fun e he => (hu.saving.saved e he).commits_committed (hno e he)
  · refine still_database.ends_bind (fun _ _ => ?_) fun _ => hu.saving.committed
    rw [ends_modify]
    have h := hu.committed hwu hs fun e he => (hu.saving.saved e he).commits_settled
    rw [show (fun e => Act.committed (settled e)) = Act.committed ∘ settled from rfl,
      ← List.map_map] at h
    exact h

end Act

end Hypermedia
