import Hypermedia.Proofs.Session.Framing

/-!
# What a new record is stored with

A new record has in its columns what it was given (`Act.ends_build_filled`), and it still has it
after it was linked to others. The row that is inserted for the record gets what the store keeps
of such a value, and nothing that is written later changes that (`Catalog.Filling.writing`). So
the value is there after the record was stored (`Catalog.Persisted.shown_eq`).
-/

namespace Hypermedia

/-- A value that is given to a property of a model is made another one. -/
structure Model.Makes (m : Model) (hasRoom : Nat → Bool) (name : String) (v w : Value) : Prop where
  link : m.link? name = none
  column : ∃ x, m.column? name = some x ∧ m.isOwn x.column = true ∧
    x.column.type.parse hasRoom name v = .ok w

/-- The record of a reference is new and has what `G` says in its columns. -/
def Entry.Filled (r : Ref) (G : String → Value → Prop) (e : Entry) : Prop :=
  e.ref = r → e.isStored = false ∧ ∀ name w, G name w → e.given? name = some w

theorem Entry.stable_filled {r : Ref} {n : Nat} (h : r.number < n) (G : String → Value → Prop) :
    Entry.Stable n (Entry.Filled r G) where
  alike := fun hfilled href _ hst _ hvalues hr => by
    obtain ⟨hnew, hgiven⟩ := hfilled (href ▸ hr)
    exact ⟨hst.trans hnew, fun name w hG => by rw [given?, hvalues]; exact hgiven name w hG⟩
  known := fun hn _ _ hr => absurd (hr ▸ hn) (Nat.not_le.2 h)

theorem Entry.Filled.imp {r : Ref} {G G' : String → Value → Prop} {e : Entry} (h : e.Filled r G)
    (hG : ∀ name w, G' name w → G name w) : e.Filled r G' := fun href =>
  (h href).imp_right fun hgiven name w hw => hgiven name w (hG name w hw)

theorem Catalog.Carrying.imp {c : Catalog} {D : Database} {n : Nat} {Q Q' : Entry → Prop}
    {s : Session} (h : c.Carrying D n Q s) (hQ : ∀ e, Q e → Q' e) : c.Carrying D n Q' s :=
  { h with carried := fun e he => hQ e (h.carried e he) }

namespace Act

variable {c : Catalog} {D : Database} {I J : Session → Prop}

/-- Giving a value to a column establishes what having it there establishes. -/
theorem takes_assignField (hI : c.Editing D I) (hp : c.Plain) {r : Ref} {m : Model}
    (hm : c.model? r.model = some m) {name : String} {v w : Value}
    (hmakes : m.Makes c.hasRoom name v w)
    (hgive : ∀ s, I s → Catalog.Accepts m name w → J (s.modify r fun e => e.setValue name w)) :
    Takes (fun t => t.committed = D) I J (assignField c r name (.value v)) := by
  obtain ⟨hl, x, hx, hown, hparse⟩ := hmakes
  refine fun s hs => (still_entry r).ends_bind (fun e he => ?_) fun _ => (hI.drafts hs).committed
  obtain ⟨hmem, href⟩ := Session.known?_mem he
  have hmodel : e.model = m :=
    Option.some.inj ((((hI.drafts hs).draft e hmem).model?_eq hp).symm.trans (href ▸ hm))
  rw [hmodel, hl, hx]
  dsimp only
  rw [givenValue, hparse, ofExcept_ok, pure_bind]
  exact hgive s hs ⟨x, hx, Or.inl ⟨hown, ColumnType.holds_of_parse hparse⟩⟩

section

variable {N : Model → String → Prop} (hI : c.Drafting D N I) (hp : c.Plain) (hD : c.Sound D)
  {r : Ref} {m : Model} (hm : c.model? r.model = some m)

include hI hp hm

/-- A new record that is given a value has it, besides what it has in other columns. -/
theorem filled_setValue {G : String → Value → Prop} {s : Session} (hs : I s)
    (hfilled : c.Carrying D (r.number + 1) (Entry.Filled r G) s) {name : String} {w : Value}
    (hN : N m name) (haccepts : Catalog.Accepts m name w) :
    I (s.modify r fun e => e.setValue name w) ∧ c.Carrying D (r.number + 1)
      (Entry.Filled r fun k u => k = name ∧ u = w ∨ k ≠ name ∧ G k u)
      (s.modify r fun e => e.setValue name w) := by
  refine ⟨hI.give hs hm (fun e he href => (hfilled.carried e he href).1) hN haccepts,
    hfilled.toDrafts.modify fun e he href => ?_, hfilled.since, fun e he href => ?_⟩
  · have hdraft := hfilled.draft e he
    have hmodel : e.model = m := Option.some.inj ((hdraft.model?_eq hp).symm.trans (href ▸ hm))
    exact ⟨hdraft.setValue (hmodel ▸ haccepts), rfl, rfl, rfl, rfl⟩
  · obtain ⟨e₀, he₀, ⟨href₀, rfl⟩ | ⟨hne, rfl⟩⟩ := Session.mem_modify he
    swap
    · exact absurd href hne
    obtain ⟨hnew, hgiven⟩ := hfilled.carried e₀ he₀ href₀
    refine ⟨hnew, fun k u hk => ?_⟩
    rw [Entry.given?_setValue]
    rcases hk with ⟨rfl, rfl⟩ | ⟨hne, hG⟩
    · exact if_pos rfl
    · exact (if_neg hne).trans (hgiven k u hG)

include hD

/-- A new record keeps what it has in other columns when a field is given to it. -/
theorem keeps_assignField_filled {G : String → Value → Prop} {f : String × Given Ref}
    (hf : Catalog.Suits m (N m) f) (hG : ∀ k u, G k u → k ≠ f.1) :
    Keeps (fun t => I t ∧ c.Carrying D (r.number + 1) (Entry.Filled r G) t)
      (assignField c r f.1 f.2) fun _ => True := by
  refine keeps_assignField (hI.toEditing.and (Catalog.Carrying.editing hp hD
    (Entry.stable_filled (Nat.lt_succ_self _) G))) hp hD hm hf fun t u ht hN haccepts => ?_
  exact (filled_setValue hI hp hm ht.1 ht.2 hN haccepts).imp_right fun h => h.imp
    fun _ hfilled => hfilled.imp fun k u hk => Or.inr ⟨hG k u hk, hk⟩

/-- A new record has in a column what it was given there. -/
theorem takes_assign_filled {fields : List (String × Given Ref)}
    (hf : ∀ f ∈ fields, Catalog.Suits m (N m) f) (hnames : (fields.map Prod.fst).Nodup)
    {name : String} {v w : Value} (hgiven : Fields.get? name fields = some (.value v))
    (hmakes : m.Makes c.hasRoom name v w) :
    Takes (fun t => t.committed = D)
      (fun t => I t ∧ c.Carrying D (r.number + 1) (Entry.Filled r fun _ _ => False) t)
      (fun t => I t ∧ c.Carrying D (r.number + 1) (Entry.Filled r fun k u => k = name ∧ u = w) t)
      (assign c r fields) := by
  obtain ⟨f, hmem, hname, hvalue⟩ : ∃ f ∈ fields, f.1 = name ∧ f.2 = .value v := by
    obtain ⟨f, hfind, hv⟩ := Option.map_eq_some_iff.1 hgiven
    exact ⟨f, List.mem_of_find?_eq_some hfind, by simpa using List.find?_some hfind, hv⟩
  have hempty := hI.toEditing.and (Catalog.Carrying.editing hp hD
    (Entry.stable_filled (Nat.lt_succ_self r.number) fun _ _ => False))
  -- The record gets the value when its field is given, and the other fields leave it.
  have htakes : Takes (fun t => t.committed = D)
      (fun t => I t ∧ c.Carrying D (r.number + 1) (Entry.Filled r fun _ _ => False) t)
      (fun t => I t ∧ c.Carrying D (r.number + 1) (Entry.Filled r fun k u => k = name ∧ u = w) t)
      (assignField c r f.1 f.2) := by
    rw [hname, hvalue]
    refine takes_assignField hempty hp hm hmakes fun t ht haccepts => ?_
    obtain ⟨x, hx, -⟩ := hmakes.column
    have hN := ((hf f hmem).column (hname ▸ hmakes.link) x (hname ▸ hx)).2
    exact (filled_setValue hI hp hm ht.1 ht.2 (hname ▸ hN) haccepts).imp_right fun h => h.imp
      fun _ hfilled => hfilled.imp fun _ _ => Or.inl
  refine takes_forM (f := fun f : String × Given Ref => assignField c r f.1 f.2) hmem
    (fun g hg => (keeps_assignField_filled hI hp hD hm (hf g hg) fun _ _ h => h.elim).takes
      fun t ht => ht.2.committed) (fun g hg => ?_) htakes
  by_cases hgf : g = f
  · exact fun t ht => hgf ▸ htakes t (ht.imp_right fun h => h.imp
      fun _ hfilled => hfilled.imp fun _ _ h => h.elim)
  · refine (keeps_assignField_filled hI hp hD hm (hf g hg) fun k u hG heq => hgf ?_).takes
      fun t ht => ht.2.committed
    exact List.inj_on_of_nodup_map hnames hg hmem (heq.symm.trans (hG.1.trans hname.symm))

end

/-- A new record of a type has in its columns what it was given there, as it was converted. -/
theorem ends_build_filled {N : Model → String → Prop} (hI : c.Drafting D N I) (hp : c.Plain)
    (hD : c.Sound D) {t : ResourceType} {m : Model} (hm : t.model.bind c.ofClass? = some m)
    (hb : m.isBuilt = true) {fields : List (String × Given Ref)}
    (hf : ∀ f ∈ fields, Catalog.Suits m (N m) f) (hnames : (fields.map Prod.fst).Nodup)
    {G : String → Value → Prop} (hG : ∀ name w, G name w →
      ∃ v, Fields.get? name fields = some (.value v) ∧ m.Makes c.hasRoom name v w) {s : Session}
    (hs : I s) : Ends (build c t fields) s
      (fun r u => (I u ∧ c.Carrying D (r.number + 1) (Entry.Filled r G) u) ∧ r.model = m.name)
      fun _ u => u.committed = D := by
  have hmem := ofClass?_mem hm
  have hmodel := hp.model?_eq hmem
  have hnumbers := (hI.drafts hs).numbers
  let r : Ref := { number := s.next, model := m.name }
  have hbuilt := hI.build hs hmem hb
  have hnew : c.Carrying D (s.next + 1) (Entry.Filled r fun _ _ => False)
      { s with entries := s.entries ++ [.built m s.next], next := s.next + 1 } := by
    refine ⟨hI.drafts hbuilt, Nat.le_refl _, fun e he href => ?_⟩
    rcases List.mem_append.1 he with he | he
    · exact absurd (hnumbers e he) (by rw [href]; exact Nat.lt_irrefl _)
    · exact ⟨by rw [List.mem_singleton.1 he]; rfl, fun _ _ h => h.elim⟩
  refine ends_build hm hnumbers ?_
  have hbase : Keeps
      (fun u => I u ∧ c.Carrying D (r.number + 1) (Entry.Filled r fun _ _ => False) u)
      (assign c r fields) fun _ => True :=
    keeps_forM fun f hmem => keeps_assignField_filled hI hp hD hmodel (hf f hmem)
      fun _ _ h => h.elim
  have hbase := hbase _ ⟨hbuilt, hnew⟩
  have hall := ends_forall (ι := { g : String × Value // G g.1 g.2 })
    (Q := fun g _ u => I u ∧ c.Carrying D (r.number + 1)
      (Entry.Filled r fun k u => k = g.1.1 ∧ u = g.1.2) u)
    (hbase.imp (fun _ _ _ => trivial) fun _ _ h => h.2.committed) fun ⟨g, hg⟩ => by
      obtain ⟨v, hv, hmakes⟩ := hG g.1 g.2 hg
      exact takes_assign_filled hI hp hD hmodel hf hnames hv hmakes _ ⟨hbuilt, hnew⟩
  refine (hbase.and hall).imp (fun _ u ⟨⟨⟨hu, hcarrying⟩, _⟩, hgiven⟩ =>
    ⟨⟨hu, hcarrying.toDrafts, hcarrying.since, fun e he href => ?_⟩, rfl⟩)
    fun _ _ h => h.1.2.committed
  refine ⟨(hcarrying.carried e he href).1, fun name w hw => ?_⟩
  exact ((hgiven ⟨(name, w), hw⟩).2.carried e he href).2 name w ⟨rfl, rfl⟩

end Act

namespace Catalog

/-- A session that is writing, in which a new record was given `w` in a column. -/
structure Primed (c : Catalog) (r : Ref) (name : String) (w : Value) (s₀ s : Session) :
    Prop extends c.Saving s₀ s where
  given : ∀ e ∈ s.entries, e.ref = r → e.isStored = false ∧ e.given? name = some w

/-- Such a session in which the record, when it has a row, has `u` in the column there. -/
structure Filling (c : Catalog) (r : Ref) (name : String) (w u : Value) (s₀ s : Session) :
    Prop extends c.Primed r name w s₀ s where
  shown : ∀ e ∈ s.entries, e.ref = r → e.key ≠ [] → e.shown s.db name = u

variable {c : Catalog} {D : Database} {s₀ s : Session} {r : Ref}

/-- A new record has no row before the writing. -/
theorem Drafts.filling (hs : c.Drafts D s) (hD : c.Sound D) {G : String → Value → Prop}
    (h : ∀ e ∈ s.entries, e.Filled r G) {name : String} {w : Value} (hG : G name w) (u : Value) :
    c.Filling r name w u s s := by
  refine ⟨⟨hs.saving hD, fun e he href => ?_⟩, fun e he href hkey => ?_⟩
  · exact (h e he href).imp_right fun hgiven => hgiven name w hG
  · exact absurd ((hs.draft e he).unstored (h e he href).1) hkey

section

variable (hp : c.Plain) (hs₀ : c.Drafts D s₀) {name : String} {w u : Value}

include hp hs₀

/-- Writing rows gives nothing to records. -/
theorem Primed.rowWriting : c.RowWriting s₀ (c.Primed r name w s₀) where
  saving := Primed.toSaving
  insert := by
    intro s e db' row h he hpending hins
    refine ⟨(h.toSaving.insert hp hs₀ he hpending hins).2, fun e' he' href => ?_⟩
    obtain ⟨e₁, he₁, ⟨-, rfl⟩ | ⟨-, rfl⟩⟩ := Session.mem_modify he'
    · exact h.given e₁ he₁ href
    · exact h.given _ he₁ href
  update := by
    intro s e k row db' h he hst hk hrow hupd
    refine ⟨(h.toSaving.update hp hs₀ he hst hk hrow hupd).2, fun e' he' href => ?_⟩
    obtain ⟨e₁, he₁, ⟨-, rfl⟩ | ⟨-, rfl⟩⟩ := Session.mem_modify he'
    · exact h.given e₁ he₁ href
    · exact h.given _ he₁ href

variable {m : Model} (hm : c.model? r.model = some m) {x : MappedColumn}
  (hx : m.column? name = some x) (hnull : w.isNull = false)
  (hstore : x.column.type.store w = .ok u)

include hm hx hnull hstore

/-- The row that is inserted for the record gets what the store keeps of what the record was
given. -/
theorem Primed.insert (h : c.Primed r name w s₀ s) {e : Entry} (he : e ∈ s.entries)
    (href : e.ref = r) (hpending : e.isPending = true) {db' : Database} {row : Row}
    (hins : s.db.insert e.model.rootTable (Act.newCells e e.model.rootTable) = .ok (db', row)) :
    c.Filling r name w u s₀ (({ s with db := db' } : Session).modify e.ref fun e' =>
      { e' with key := e'.model.keyNames.map (Row.get row) }) := by
  refine ⟨(Primed.rowWriting hp hs₀).insert h he hpending hins, fun e' he' href' _ => ?_⟩
  obtain ⟨⟨k, hinserted⟩, -⟩ := h.toSaving.insert hp hs₀ he hpending hins
  obtain ⟨e₁, he₁, ⟨href₁, rfl⟩ | ⟨hne, rfl⟩⟩ := Session.mem_modify he'
  swap
  · exact absurd (href'.trans href.symm) hne
  obtain rfl := h.eq_of_ref hs₀ he he₁ href₁
  obtain ⟨-, hgiven⟩ := h.given e₁ he₁ href
  obtain rfl := (h.saved _ he).model_eq hp (href ▸ hm)
  have hname : x.column.name = name := by simpa using List.find?_some hx
  have hstored := (hinserted.cell hx (v := w)
    (by simp [Entry.newCell, hname, hgiven, hnull])).store
  exact (Entry.shown_eq (e := { e₁ with key := e₁.model.keyNames.map (Row.get row) })
    hinserted.key hinserted.row?_eq name).trans (Except.ok.inj (hstore.symm.trans hstored)).symm

/-- Writing rows leaves in the row of a new record what the store keeps of what the record was
given. -/
theorem Filling.rowWriting : c.RowWriting s₀ (c.Filling r name w u s₀) where
  saving := fun h => h.toSaving
  insert := by
    intro s e db' row h he hpending hins
    by_cases hself : e.ref = r
    · exact h.toPrimed.insert hp hs₀ hm hx hnull hstore he hself hpending hins
    obtain ⟨⟨k, hinserted⟩, -⟩ := h.toSaving.insert hp hs₀ he hpending hins
    refine ⟨(Primed.rowWriting hp hs₀).insert h.toPrimed he hpending hins,
      fun e' he' href hkey => ?_⟩
    obtain ⟨e₁, he₁, ⟨href₁, rfl⟩ | ⟨-, rfl⟩⟩ := Session.mem_modify he'
    · exact absurd (href₁.symm.trans href) hself
    · exact ((h.saved _ he₁).shown_eq hkey (fun _ _ _ hr => hinserted.kept hr) name).trans
        (h.shown _ he₁ href hkey)
  update := by
    intro s e k row db' h he hst hk hrow hupd
    obtain ⟨⟨new, hupdated⟩, -⟩ := h.toSaving.update hp hs₀ he hst hk hrow hupd
    refine ⟨(Primed.rowWriting hp hs₀).update h.toPrimed he hst hk hrow hupd,
      fun e' he' href hkey => ?_⟩
    obtain ⟨e₁, he₁, ⟨href₁, rfl⟩ | ⟨hne, rfl⟩⟩ := Session.mem_modify he'
    · obtain rfl := h.eq_of_ref hs₀ he he₁ href₁
      exact absurd hst (by simp [(h.given e₁ he₁ href).1])
    · exact (h.shown_updated he he₁ hne hk hupdated hkey name).trans (h.shown _ he₁ href hkey)

/-- Every step of a writing does so if the column refers to no other record. -/
theorem Filling.writing (hrefers : x.column.refersTo = none) :
    c.Writing s₀ (c.Filling r name w u s₀) where
  toRowWriting := Filling.rowWriting hp hs₀ hm hx hnull hstore
  refer := by
    intro s e column v h he hmember hv _
    refine ⟨⟨h.toSaving.refer hs₀ he hmember hv, fun e' he' href => ?_⟩, fun e' he' href hkey => ?_⟩
      <;> obtain ⟨e₁, he₁, ⟨href₁, rfl⟩ | ⟨-, rfl⟩⟩ := Session.mem_modify he'
    · obtain rfl := h.eq_of_ref hs₀ he he₁ href₁
      obtain ⟨hnew, hgiven⟩ := h.given e₁ he₁ href
      refine ⟨hnew, ?_⟩
      rw [Entry.given?_setValue, if_neg, hgiven]
      -- The column refers to other records, and this one does not.
      rintro rfl
      obtain ⟨y, table, hy, hto, -⟩ := hv
      have href : e₁.ref = r := href
      obtain rfl := (h.saved _ he).model_eq hp (href ▸ hm)
      obtain rfl := Option.some.inj (hx.symm.trans hy)
      simp [hto] at hrefers
    · exact h.given _ he₁ href
    · exact h.shown e₁ he₁ href hkey
    · exact h.shown _ he₁ href hkey

end

/-- After a new record was stored its row has in a column what the store keeps of what the record
was given. -/
theorem Persisted.shown_eq {I : Session → Prop} {W : Session → Session → Prop} {t : Session}
    (h : c.Persisted I W s r t) {name : String} {w u : Value}
    (hW : ∀ u₀ v, I u₀ → W u₀ v → c.Filling r name w u u₀ v) {e : Entry} (he : e ∈ t.entries)
    (href : e.ref = r) (hkey : e.key ≠ []) : e.shown t.db name = u := by
  obtain ⟨u₀, v, hu, -, hwv, hdb, hentries⟩ := h.written
  obtain ⟨e₀, he₀, hcommits⟩ := hentries e he
  rw [hcommits.key] at hkey
  have hshown := (hW u₀ v hu hwv).shown e₀ he₀ (hcommits.ref.symm.trans href) hkey
  simpa [Entry.shown, Entry.row?, hcommits.key, hcommits.model, hdb] using hshown

end Catalog

end Hypermedia
