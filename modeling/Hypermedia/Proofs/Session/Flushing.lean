import Hypermedia.Proofs.Session.Follow
import Hypermedia.Proofs.Session.Saving

/-!
# Writing the rows of drafts

A property of sessions that are writing is kept by the whole writing of tables if the three
steps keep it: a column that refers to another record is filled in, a row is inserted, and a
row is changed (`Catalog.Writing`). It is enough that filling in all columns of a record keeps it,
even where a single step does not (`Catalog.Passing`). `Act.takes_saveTables` leads from one such
property to another one that the writing of a single record establishes.
-/

namespace Hypermedia

namespace Act

variable {α β : Type}

/-! ## Reading rows -/

theorem still_row? (name : String) (key : List Value) : Still (row? name key) fun s o =>
    ∃ t, s.db.table name = .ok t ∧ o = t.find? key :=
  fun _ => (still_table name).ends_bind (fun t ht => ⟨rfl, t, ht, rfl⟩) fun _ => rfl

/-- Fill in the column of a record that one of its links fills. -/
def referLink (r : Ref) (e : Entry) (l : Link) : Act Unit :=
  match l.kind, Fields.get? l.name e.links with
  | .reference column, some state =>
    if e.isPending || state.isChanged then
      match state.current with
      | [] => refer r column .null
      | other :: _ => do
        let o ← entry other
        if o.isMember then refer r column (keyValue o) else pure ()
    else pure ()
  | _, _ => pure ()

theorem referToOthers_eq (r : Ref) :
    referToOthers r = entry r >>= fun e => e.model.links.forM (referLink r e) := rfl

theorem still_columnValue (r : Ref) (x : MappedColumn) :
    Still (columnValue r x) fun _ _ => True := by
  refine (still_entry r).bind fun e => ?_
  split
  · exact still_pure fun _ => trivial
  · split
    · refine (still_row? x.table e.key).bind fun o => ?_
      cases o with
      | none => exact still_throw _
      | some row => exact still_pure fun _ => trivial
    · exact still_pure fun _ => trivial

/-! ## From one property to another -/

/-- The action leads from `I` to `J`; if it fails, there is `C`. -/
def Takes (C I J : Session → Prop) (x : Act α) : Prop :=
  ∀ s, I s → Ends x s (fun _ t => J t) fun _ t => C t

variable {C I J K : Session → Prop}

theorem Takes.bind {f : α → Act β} (hx : Takes C I J x) (hf : ∀ a, Takes C J K (f a)) :
    Takes C I K (x >>= f) := by
  intro s hs
  rw [Act.ends_bind]
  exact (hx s hs).imp (fun a t ht => hf a t ht) fun _ _ h => h

theorem Keeps.takes {P : α → Prop} (h : Keeps I x P) (hC : ∀ s, I s → C s) : Takes C I I x :=
  fun s hs => (h s hs).imp (fun _ _ h => h.1) fun _ t ht => hC t ht

theorem Takes.keeps (h : Takes I I I x) : Keeps I x fun _ => True :=
  fun s hs => (h s hs).imp (fun _ _ h => ⟨h, trivial⟩) fun _ _ h => h

/-- Doing something for every member of a list establishes what doing it for one of them
establishes, if it stays. -/
theorem takes_forM {f : α → Act Unit} {xs : List α} {a : α} (ha : a ∈ xs)
    (hI : ∀ b ∈ xs, Takes C I I (f b)) (hJ : ∀ b ∈ xs, Takes C J J (f b))
    (hf : Takes C I J (f a)) : Takes C I J (xs.forM f) := by
  induction xs with
  | nil => cases ha
  | cons b xs ih =>
    change Takes C I J (f b >>= fun _ => xs.forM f)
    rcases List.mem_cons.1 ha with rfl | ha
    · refine hf.bind fun _ s hs => ends_forM hs fun b hb t ht => ?_
      exact hJ b (List.mem_cons_of_mem _ hb) t ht
    · exact (hI b List.mem_cons_self).bind fun _ =>
        ih ha (fun b hb => hI b (List.mem_cons_of_mem _ hb))
          fun b hb => hJ b (List.mem_cons_of_mem _ hb)

theorem takes_forM_self {f : α → Act Unit} {xs : List α} (h : ∀ b ∈ xs, Takes C I I (f b)) :
    Takes C I I (xs.forM f) :=
  fun _ hs => ends_forM hs fun b hb t ht => h b hb t ht

theorem takes_ofExcept (x : Except Fault α) {f : α → Act β} (h : ∀ a, x = .ok a → Takes C I J (f a))
    (hC : ∀ s, I s → C s) : Takes C I J (ofExcept x >>= f) := by
  intro s hs
  cases x with
  | ok a => exact h a rfl s hs
  | error f => exact hC s hs

end Act

/-! ## Steps that keep a property -/

/-- There is nothing to write but deletions. -/
def Session.Calm (s : Session) : Prop :=
  ∀ e ∈ s.entries, e.isMember = true → e.isPending = false ∧ e.isChanged = false

/-- A record that is to be deleted has this one among those that refer to it through a column. -/
def Session.LetsGo (s : Session) (r : Ref) (column : String) : Prop :=
  ∃ owner ∈ s.entries, owner.isDoomed = true ∧
    ∃ l, (l, column) ∈ Act.memberLinks owner ∧ r ∈ (owner.linkState l.name).involved

/-- A property of sessions that are writing, from another one on, that the rows which are
written keep. -/
structure Catalog.RowWriting (c : Catalog) (s₀ : Session) (I : Session → Prop) : Prop where
  saving : ∀ {s}, I s → c.Saving s₀ s
  insert : ∀ {s e db' row}, I s → e ∈ s.entries → e.isPending = true →
    s.db.insert e.model.rootTable (Act.newCells e e.model.rootTable) = .ok (db', row) →
    I (({ s with db := db' } : Session).modify e.ref fun e' =>
      { e' with key := e'.model.keyNames.map (Row.get row) })
  update : ∀ {s e k row db'}, I s → e ∈ s.entries → e.isStored = true → e.key = [.int k] →
    s.db.row? e.model.rootTable k = some row →
    s.db.update e.model.rootTable e.key (Act.changedCells e e.model.rootTable row) = .ok db' →
    I (({ s with db := db' } : Session).modify e.ref fun e' =>
      { e' with key := e'.model.keyNames.map fun k => (e'.given? k).getD (Row.get row k) })

/-- Such a property that every step of the writing keeps. -/
structure Catalog.Writing (c : Catalog) (s₀ : Session) (I : Session → Prop) : Prop extends
    c.RowWriting s₀ I where
  refer : ∀ {s e column v}, I s → e ∈ s.entries → e.isMember = true →
    Catalog.Refers s.db e.model column v →
    (v = .null ∧ s₀.LetsGo e.ref column ∨ ¬s₀.Calm) →
    I (s.modify e.ref fun e => e.setValue column v)

/-- Such a property that stays when all columns of a record that refer to others are filled in;
if that fails there is `C`. -/
structure Catalog.Passing (c : Catalog) (s₀ : Session) (es : List Entry) (C I : Session → Prop) :
    Prop extends c.RowWriting s₀ I where
  fails : ∀ s, I s → C s
  referToAll : ∀ e ∈ es, Act.Takes C I I (Act.referToAll es e.ref)

namespace Catalog

variable {c : Catalog} {D : Database} {s₀ : Session}

/-- Properties that every step of a writing keeps are kept together. -/
theorem Writing.and_forall {ι : Sort*} {I : Session → Prop} {J : ι → Session → Prop}
    (hI : c.Writing s₀ I) (hJ : ∀ i, c.Writing s₀ (J i)) :
    c.Writing s₀ fun s => I s ∧ ∀ i, J i s where
  saving := fun h => hI.saving h.1
  refer := fun h he hm hv hn =>
    ⟨hI.refer h.1 he hm hv hn, fun i => (hJ i).refer (h.2 i) he hm hv hn⟩
  insert := fun h he hpending hins =>
    ⟨hI.insert h.1 he hpending hins, fun i => (hJ i).insert (h.2 i) he hpending hins⟩
  update := fun h he hst hk hrow hupd =>
    ⟨hI.update h.1 he hst hk hrow hupd, fun i => (hJ i).update (h.2 i) he hst hk hrow hupd⟩

theorem RowWriting.and {I J : Session → Prop} (hI : c.RowWriting s₀ I) (hJ : c.RowWriting s₀ J) :
    c.RowWriting s₀ fun s => I s ∧ J s where
  saving := fun h => hI.saving h.1
  insert := fun h he hpending hins =>
    ⟨hI.insert h.1 he hpending hins, hJ.insert h.2 he hpending hins⟩
  update := fun h he hst hk hrow hupd =>
    ⟨hI.update h.1 he hst hk hrow hupd, hJ.update h.2 he hst hk hrow hupd⟩

theorem Writing.and {I J : Session → Prop} (hI : c.Writing s₀ I) (hJ : c.Writing s₀ J) :
    c.Writing s₀ fun s => I s ∧ J s where
  toRowWriting := hI.toRowWriting.and hJ.toRowWriting
  refer := fun h he hm hv hn => ⟨hI.refer h.1 he hm hv hn, hJ.refer h.2 he hm hv hn⟩

/-- That a session is writing is kept by the writing. -/
theorem Drafts.writing (hs₀ : c.Drafts D s₀) (hp : c.Plain) : c.Writing s₀ (c.Saving s₀) where
  saving := id
  refer := fun h he hm hv _ => h.refer hs₀ he hm hv
  insert := fun h he hpending hins => (h.insert hp hs₀ he hpending hins).2
  update := fun h he hst hk hrow hupd => (h.update hp hs₀ he hst hk hrow hupd).2

theorem mem_memberLinks {e : Entry} {l : Link} {column : String} :
    (l, column) ∈ Act.memberLinks e ↔ l ∈ e.model.links ∧ l.kind = .members column := by
  rw [Act.memberLinks, List.mem_filterMap]
  constructor
  · rintro ⟨l', hl', hkind⟩
    split at hkind
    · next hc =>
      cases hkind
      exact ⟨hl', hc⟩
    · cases hkind
  · rintro ⟨hl, hc⟩
    exact ⟨l, hl, by simp [hc]⟩

/-- The column through which the members of a record refer to it. -/
theorem Plain.refersTo_of_memberLink (hp : c.Plain) {owner : Entry} (ho : c.Draft D owner)
    {l : Link} {column : String} (hl : (l, column) ∈ Act.memberLinks owner) {r : Ref}
    (hr : r ∈ (owner.linkState l.name).refs) {m : Model} (hm : c.model? r.model = some m) :
    l ∈ owner.model.links ∧ m.refers column owner.model.rootTable = true := by
  obtain ⟨hl, hc⟩ := mem_memberLinks.1 hl
  obtain ⟨t, ht, hspec⟩ := hp.linkSpec ho.model hl
  rw [ho.model_of_refs hp hl r hr, ht] at hm
  exact ⟨hl, Option.some.inj hm ▸ (hspec.members column hc).2⟩

theorem refers_null {db : Database} {m : Model} {column table : String}
    (h : m.refers column table = true) : Refers db m column .null := by
  obtain ⟨x, hx, href⟩ := (Option.any_eq_true _ _).1 h
  exact ⟨x, table, hx, by simpa using href, Or.inl rfl⟩

/-- What a record is referred to by is nothing or the number of its row. -/
theorem Saved.refers_keyValue {db : Database} {o : Entry} (ho : c.Saved db o) {m : Model}
    {column : String} (h : m.refers column o.model.rootTable = true) :
    Refers db m column (Act.keyValue o) := by
  obtain ⟨x, hx, href⟩ := (Option.any_eq_true _ _).1 h
  refine ⟨x, o.model.rootTable, hx, by simpa using href, ?_⟩
  by_cases hkey : o.key = []
  · exact Or.inl (by simp [Act.keyValue, hkey])
  · obtain ⟨k, r, hk, hr, -⟩ := ho.row hkey
    exact Or.inr ⟨k, by simp [Act.keyValue, hk], by simp [hr]⟩

end Catalog

namespace Act

variable {c : Catalog} {D : Database} {s₀ s : Session} {I : Session → Prop} (hp : c.Plain)
  (hs₀ : c.Drafts D s₀) (hT : c.RowWriting s₀ I) (hW : c.Writing s₀ I) {es : List Entry}
  (hes : ∀ e ∈ es, e ∈ s₀.entries ∧ e.isMember = true)

include hs₀ hT hes in
/-- A record that is written is a record of the session from the beginning. -/
theorem of_known? (hs : I s) {e₀ : Entry} (he₀ : e₀ ∈ es) {e : Entry}
    (he : s.known? e₀.ref = some e) : e ∈ s.entries ∧ e.ref = e₀.ref ∧ e.frame = e₀.frame ∧
      e.isMember = true ∧ c.Saved s.db e := by
  obtain ⟨hmem, href⟩ := Session.known?_mem he
  obtain ⟨hmem₀, hmember⟩ := hes e₀ he₀
  have hframe := (hT.saving hs).frame_eq hs₀ hmem hmem₀ href
  refine ⟨hmem, href, hframe, ?_, (hT.saving hs).saved e hmem⟩
  unfold Entry.isMember at hmember ⊢
  rwa [Entry.phase_of_frame hframe]

/-! ## Columns that refer to other records -/

include hW

/-- Filling in a column gives it the value. -/
theorem ends_refer (hs : I s) {r : Ref} {column : String} {v : Value}
    (h : ∀ e, s.known? r = some e → e.isMember = true ∧ Catalog.Refers s.db e.model column v)
    (hv : v = .null ∧ s₀.LetsGo r column ∨ ¬s₀.Calm) : Ends (refer r column v) s
      (fun _ t => I t ∧ ∀ e, t.known? r = some e → e.given? column = some v) fun _ t => I t := by
  refine (still_entry r).ends_bind (fun e he => ?_) fun _ => hs
  obtain ⟨hmember, hrefers⟩ := h e he
  obtain ⟨hmem, rfl⟩ := Session.known?_mem he
  obtain ⟨x, hx⟩ : ∃ x, e.model.column? column = some x := hrefers.imp fun x ⟨_, hx, _⟩ => hx
  rw [hx]
  refine (still_columnValue e.ref x).ends_bind (fun old _ => ?_) fun _ => hs
  split
  · exact hs
  · rw [ends_modifyEntry]
    refine ⟨hW.refer hs hmem hmember hrefers hv, fun e' he' => ?_⟩
    have hknown := Session.known?_modify (f := fun e => e.setValue column v) (fun _ => rfl) he
    rw [← Option.some.inj (hknown.symm.trans he'), Entry.given?_setValue, if_pos rfl]

include hp hs₀ hes

/-- A column is emptied through which a record refers to an owner. -/
theorem ends_refer_null (hs : I s) {e₀ : Entry} (he₀ : e₀ ∈ es) {owner : Entry}
    (ho : owner ∈ s₀.entries) {l : Link} {column : String} (hl : (l, column) ∈ memberLinks owner)
    (hr : e₀.ref ∈ (owner.linkState l.name).refs) (hgo : s₀.LetsGo e₀.ref column ∨ ¬s₀.Calm) :
    Ends (refer e₀.ref column .null) s
      (fun _ t => I t ∧ ∀ e, t.known? e₀.ref = some e → e.given? column = some .null)
      fun _ t => I t := by
  refine ends_refer hW hs (fun e he => ?_) (hgo.imp_left fun h => ⟨rfl, h⟩)
  obtain ⟨-, href, -, hmember, hsaved⟩ := of_known? hs₀ hW.toRowWriting hes hs he₀ he
  have hm := href ▸ hsaved.model?_eq hp
  exact ⟨hmember, Catalog.refers_null (hp.refersTo_of_memberLink (hs₀.draft owner ho) hl hr hm).2⟩

/-- A column may be emptied if the record is a member of the link of an owner that is deleted. -/
theorem keeps_unreferLink {e₀ : Entry} (he₀ : e₀ ∈ es) {owner : Entry}
    (ho : owner ∈ es.filter Entry.isDoomed) {l : Link} {column : String}
    (hl : (l, column) ∈ memberLinks owner) {b : Bool} :
    Keeps I (if !l.cascades && (owner.linkState l.name).involved.contains e₀.ref && b then
      refer e₀.ref column .null else pure ()) fun _ => True := by
  refine keeps_ite (fun hcond => ?_) fun _ => keeps_pure trivial
  simp only [Bool.and_eq_true, List.contains_iff_mem] at hcond
  obtain ⟨ho, hdoomed⟩ := List.mem_filter.1 ho
  have ho := (hes owner ho).1
  exact fun s hs => (ends_refer_null hp hs₀ hW hes hs he₀ ho hl
    (LinkState.mem_refs_of_involved hcond.1.2) (Or.inl ⟨owner, ho, hdoomed, l, hl, hcond.1.2⟩)).imp
      (fun _ _ h => ⟨h.1, trivial⟩) fun _ _ h => h

theorem keeps_unrefer {e₀ : Entry} (he₀ : e₀ ∈ es) :
    Keeps I (unrefer es e₀.ref) fun _ => True :=
  keeps_forM fun _ ho => keeps_forM fun _ hx =>
    keeps_unreferLink hp hs₀ hW hes he₀ ho hx

theorem keeps_referToOwners {e₀ : Entry} (he₀ : e₀ ∈ es) :
    Keeps I (referToOwners es e₀.ref) fun _ => True := by
  refine (still_entry e₀.ref).keeps.bind fun e _ => keeps_forM fun owner ho =>
    keeps_forM fun x hx => ?_
  obtain ⟨l, column⟩ := x
  obtain ⟨ho, hdirty⟩ := List.mem_filter.1 ho
  simp only [isDirty, Bool.and_eq_true, Bool.or_eq_true] at hdirty
  have hcalm : ¬s₀.Calm := by
    intro h
    obtain ⟨h1, h2⟩ := h owner (hes owner ho).1 (hes owner ho).2
    simp [h1, h2] at hdirty
  have hdrop : Keeps I (if (owner.linkState l.name).dropped.contains e₀.ref && e.lost.contains l &&
      !l.owns then refer e₀.ref column .null else pure ()) fun _ => True := by
    refine keeps_ite (fun hcond => ?_) fun _ => keeps_pure trivial
    simp only [Bool.and_eq_true, List.contains_iff_mem] at hcond
    exact fun s hs => (ends_refer_null hp hs₀ hW hes hs he₀ (hes owner ho).1 hx
      (LinkState.mem_refs_of_dropped hcond.1.1) (Or.inr hcalm)).imp
        (fun _ _ h => ⟨h.1, trivial⟩) fun _ _ h => h
  refine keeps_ite (fun hcond => ?_) fun _ => hdrop
  have hr := LinkState.mem_refs_of_gained (List.contains_iff_mem.1 hcond)
  refine fun s hs => (still_entry owner.ref).ends_bind (fun o hknown => ?_) fun _ => hs
  obtain ⟨-, -, hframe, -, hsaved⟩ := of_known? hs₀ hW.toRowWriting hes hs ho hknown
  rw [ends_bind]
  refine (ends_refer hW hs (fun e he => ?_) (Or.inr hcalm)).imp (fun _ t h => hdrop t h.1)
    fun _ _ h => h
  obtain ⟨-, href, -, hmember, hsaved'⟩ := of_known? hs₀ hW.toRowWriting hes hs he₀ he
  have hm := href ▸ hsaved'.model?_eq hp
  have hrefers := (hp.refersTo_of_memberLink (hs₀.draft owner (hes owner ho).1) hx hr hm).2
  refine ⟨hmember, hsaved.refers_keyValue ?_⟩
  rwa [Entry.model_of_frame hframe]

/-- Where a link of a new record or a changed one fills a column, the column refers to the first
record that the link leads to, or to nothing. -/
theorem ends_referLink (hs : I s) {e₀ : Entry} (he₀ : e₀ ∈ es) {e : Entry}
    (hframe : e.frame = e₀.frame) {l : Link} (hl : l ∈ e₀.model.links) :
    Ends (referLink e₀.ref e l) s (fun _ t => I t ∧ ∀ column state,
      l.kind = .reference column → Fields.get? l.name e₀.links = some state →
        (e₀.isPending || state.isChanged) = true →
          (state.current = [] → ∀ e', t.known? e₀.ref = some e' →
            e'.given? column = some .null) ∧
          ∀ other rest, state.current = other :: rest → ∃ o, s.known? other = some o ∧
            (o.isMember = true → ∀ e', t.known? e₀.ref = some e' →
              e'.given? column = some (keyValue o)))
      fun _ t => I t := by
  have hdraft := hs₀.draft e₀ (hes e₀ he₀).1
  have hpendings : e.isPending = e₀.isPending := by
    simp [Entry.isPending, Entry.phase_of_frame hframe]
  unfold referLink
  rw [Entry.links_of_frame hframe, hpendings]
  split
  swap
  · next hno =>
    exact ⟨hs, fun column state hc hst => absurd hst (hno column _ hc)⟩
  next column state hc hst =>
  obtain ⟨t, ht, hspec⟩ := hp.linkSpec hdraft.model hl
  have href : e₀.model.refers column t.rootTable = true := (hspec.reference column hc).2
  have hmem : (l.name, state) ∈ e₀.links := by
    obtain ⟨⟨n, st⟩, hfind, rfl⟩ := Option.map_eq_some_iff.1 hst
    have hname : n = l.name := by simpa using List.find?_some hfind
    exact hname ▸ List.mem_of_find?_eq_some hfind
  have hself : ∀ v, Catalog.Refers s.db e₀.model column v → ¬s₀.Calm →
      Ends (refer e₀.ref column v) s
        (fun _ t => I t ∧ ∀ e', t.known? e₀.ref = some e' → e'.given? column = some v)
        fun _ t => I t := by
    intro v hv hcalm
    refine ends_refer hW hs (fun e' he' => ?_) (Or.inr hcalm)
    obtain ⟨-, -, hframe', hmember, -⟩ := of_known? hs₀ hW.toRowWriting hes hs he₀ he'
    exact ⟨hmember, Entry.model_of_frame hframe' ▸ hv⟩
  have hsame : ∀ {column' state'}, l.kind = .reference column' →
      Fields.get? l.name e₀.links = some state' → column' = column ∧ state' = state :=
    fun hc' hst' => ⟨LinkKind.reference.inj (hc'.symm.trans hc),
      Option.some.inj (hst'.symm.trans hst)⟩
  split
  swap
  · next hcond =>
    refine ⟨hs, fun _ _ hc' hst' hchanged => absurd ?_ hcond⟩
    obtain ⟨-, rfl⟩ := hsame hc' hst'
    exact hchanged
  next hcond =>
  have hcalm : ¬s₀.Calm := by
    intro h
    obtain ⟨h1, h2⟩ := h e₀ (hes e₀ he₀).1 (hes e₀ he₀).2
    simp only [Entry.isChanged, Bool.or_eq_false_iff, List.any_eq_false] at h2
    have hnot := h2.2 _ hmem
    simp [h1, hnot] at hcond
  split
  · next hcurrent =>
    refine (hself _ (Catalog.refers_null href) hcalm).imp
      (fun _ t h => ⟨h.1, fun _ _ hc' hst' _ => ?_⟩) fun _ _ h => h
    obtain ⟨rfl, rfl⟩ := hsame hc' hst'
    exact ⟨fun _ => h.2, fun _ _ hcurrent' =>
      absurd (hcurrent'.symm.trans hcurrent) (List.cons_ne_nil _ _)⟩
  · next other rest hcurrent =>
    have hother : other.model = l.target := by
      refine hdraft.link _ hmem l (hp.link?_eq hdraft.model hl) other ?_
      exact LinkState.mem_refs_of_current (hcurrent ▸ List.mem_cons_self)
    refine (still_entry other).ends_bind (fun o ho => ?_) fun _ => hs
    obtain ⟨homem, horef⟩ := Session.known?_mem ho
    have hsaved := (hW.saving hs).saved o homem
    have hmodel' : o.model = t := by
      have hm := hsaved.model?_eq hp
      rw [horef, hother, ht] at hm
      exact (Option.some.inj hm).symm
    have hspelled : ∀ {u : Session}, (o.isMember = true →
        ∀ e', u.known? e₀.ref = some e' → e'.given? column = some (keyValue o)) →
          (state.current = [] → ∀ e', u.known? e₀.ref = some e' →
            e'.given? column = some .null) ∧
          ∀ other rest, state.current = other :: rest → ∃ o, s.known? other = some o ∧
            (o.isMember = true → ∀ e', u.known? e₀.ref = some e' →
              e'.given? column = some (keyValue o)) := by
      refine fun h => ⟨fun hnil => absurd (hcurrent.symm.trans hnil) (List.cons_ne_nil _ _),
        fun other' rest' hc' => ?_⟩
      obtain ⟨rfl, -⟩ := List.cons.inj (hcurrent.symm.trans hc')
      exact ⟨o, ho, h⟩
    split
    · refine (hself _ (hsaved.refers_keyValue (hmodel' ▸ href)) hcalm).imp
        (fun _ t h => ⟨h.1, fun _ _ hc' hst' _ => ?_⟩) fun _ _ h => h
      obtain ⟨rfl, rfl⟩ := hsame hc' hst'
      exact hspelled fun _ => h.2
    · next hno =>
      refine ⟨hs, fun _ _ hc' hst' _ => ?_⟩
      obtain ⟨rfl, rfl⟩ := hsame hc' hst'
      exact hspelled fun hmember => absurd hmember hno

omit hp hW in
include hT in
/-- The record that is read is the one from the beginning, apart from what is written. -/
theorem keeps_entry_frame {e₀ : Entry} (he₀ : e₀ ∈ es) :
    Keeps I (entry e₀.ref) fun e => e.frame = e₀.frame := by
  refine fun s hs => ((still_entry e₀.ref) s).imp (fun e t h => ?_) fun _ _ h => h ▸ hs
  obtain ⟨ht, he⟩ := h
  obtain ⟨-, -, hframe, -⟩ := of_known? hs₀ hT hes hs he₀ he
  exact ⟨ht ▸ hs, hframe⟩

theorem keeps_referToOthers {e₀ : Entry} (he₀ : e₀ ∈ es) :
    Keeps I (referToOthers e₀.ref) fun _ => True := by
  refine (keeps_entry_frame hs₀ hW.toRowWriting hes he₀).bind fun e hframe =>
    keeps_forM fun l hl s hs => ?_
  rw [Entry.model_of_frame hframe] at hl
  exact (ends_referLink hp hs₀ hW hes hs he₀ hframe hl).imp (fun _ _ h => ⟨h.1, trivial⟩)
    fun _ _ h => h

theorem keeps_referToAll {e₀ : Entry} (he₀ : e₀ ∈ es) :
    Keeps I (referToAll es e₀.ref) fun _ => True :=
  (keeps_unrefer hp hs₀ hW hes he₀).bind fun _ _ =>
    (keeps_referToOwners hp hs₀ hW hes he₀).bind fun _ _ => keeps_referToOthers hp hs₀ hW hes he₀

section

omit hp hs₀ hes hW

/-- Filling in a column keeps what giving it a value keeps. -/
theorem keeps_refer_of {r : Ref} {column : String} {v : Value}
    (h : ∀ s, I s → I (s.modify r fun e => e.setValue column v)) :
    Keeps I (refer r column v) fun _ => True := by
  refine (still_entry r).keeps.bind fun e _ => ?_
  split
  · exact keeps_pure trivial
  · exact (still_columnValue r _).keeps.bind fun _ _ => keeps_ite (fun _ => keeps_throw _)
      fun _ => keeps_modify h

/-- A link gives nothing to columns but the one that it fills, if it is new or was changed. -/
theorem keeps_referLink_of {r : Ref} {e : Entry} {l : Link}
    (h : ∀ column state, l.kind = .reference column → Fields.get? l.name e.links = some state →
      (e.isPending || state.isChanged) = true → ∀ s v, I s →
        I (s.modify r fun e => e.setValue column v)) : Keeps I (referLink r e l) fun _ => True := by
  unfold referLink
  split
  · next column state hc hst =>
    refine keeps_ite (fun hchanged => ?_) fun _ => keeps_pure trivial
    have hrefer : ∀ v, Keeps I (refer r column v) fun _ => True :=
      fun v => keeps_refer_of fun s hs => h column state hc hst hchanged s v hs
    split
    · exact hrefer _
    · exact (still_entry _).keeps.bind fun o _ => keeps_ite (fun _ => hrefer _)
        fun _ => keeps_pure trivial
  · exact keeps_pure trivial

/-- Filling in all columns of a record keeps what giving it values keeps. -/
theorem keeps_referToAll_of {r : Ref}
    (h : ∀ s column v, I s → I (s.modify r fun e => e.setValue column v)) :
    Keeps I (referToAll es r) fun _ => True := by
  have hrefer : ∀ column v, Keeps I (refer r column v) fun _ => True :=
    fun column v => keeps_refer_of fun s hs => h s column v hs
  refine Keeps.bind (P := fun _ => True) (keeps_forM fun _ _ => keeps_forM fun _ _ =>
    keeps_ite (fun _ => hrefer _ _) fun _ => keeps_pure trivial) fun _ _ => ?_
  refine Keeps.bind (P := fun _ => True) ((still_entry r).keeps.bind fun e _ =>
    keeps_forM fun owner _ => keeps_forM fun x _ => ?_) fun _ _ =>
      (still_entry r).keeps.bind fun e _ => keeps_forM fun l _ =>
        keeps_referLink_of fun column _ _ _ _ s v hs => h s column v hs
  have hdrop : ∀ p : Bool, Keeps I (if p then refer r x.2 .null else pure ()) fun _ => True :=
    fun p => keeps_ite (fun _ => hrefer _ _) fun _ => keeps_pure trivial
  exact keeps_ite (fun _ => (still_entry owner.ref).keeps.bind fun o _ =>
    (hrefer _ _).bind fun _ _ => hdrop _) fun _ => hdrop _

end

/-- A record was given a value in a column. -/
def Gives (r : Ref) (column : String) (w : Value) (s : Session) : Prop :=
  ∀ e ∈ s.entries, e.ref = r → e.given? column = some w

omit hp hs₀ hW hes in
/-- Giving a value to another column, or to another record, leaves what a record was given. -/
theorem Gives.setValue {r x : Ref} {column name : String} {w v : Value} {s : Session}
    (hne : x ≠ r ∨ name ≠ column) (h : Gives r column w s) :
    Gives r column w (s.modify x fun e => e.setValue name v) := by
  intro e he href
  obtain ⟨e₁, he₁, ⟨href₁, rfl⟩ | ⟨-, rfl⟩⟩ := Session.mem_modify he
  · rw [Entry.given?_setValue, if_neg, h e₁ he₁ href]
    exact fun heq => hne.elim (fun hx => hx (href₁.symm.trans href)) fun hn => hn heq.symm
  · exact h _ he₁ href

/-- After all links of a record filled in their columns, a column has what the one link gives to
it that fills it. -/
theorem takes_referToOthers {C : Session → Prop} (hC : ∀ s, I s → C s) {e₀ : Entry}
    (he₀ : e₀ ∈ es) {l : Link} (hl : l ∈ e₀.model.links) {column : String}
    (honly : ∀ l' ∈ e₀.model.links, l'.kind = .reference column → l' = l) {w : Value}
    (hlink : ∀ e, e.frame = e₀.frame →
      Takes C I (fun t => I t ∧ Gives e₀.ref column w t) (referLink e₀.ref e l)) :
    Takes C I (fun t => I t ∧ Gives e₀.ref column w t) (referToOthers e₀.ref) := by
  rw [referToOthers_eq]
  refine fun s hs => (keeps_entry_frame hs₀ hW.toRowWriting hes he₀).ends_bind hs
    (fun e t ht hframe => ?_) fun _ t ht => hC t ht
  rw [Entry.model_of_frame hframe]
  have hkeeps : ∀ l' ∈ e₀.model.links, Keeps I (referLink e₀.ref e l') fun _ => True :=
    fun l' hl' u hu => (ends_referLink hp hs₀ hW hes hu he₀ hframe hl').imp
      (fun _ _ h => ⟨h.1, trivial⟩) fun _ _ h => h
  refine takes_forM hl (fun l' hl' => (hkeeps l' hl').takes hC) (fun l' hl' => ?_) (hlink e hframe)
    t ht
  by_cases hsame : l' = l
  · exact fun u hu => hsame ▸ hlink e hframe u hu.1
  -- Other links fill other columns.
  · refine fun u hu => ((hkeeps l' hl' u hu.1).and (keeps_referLink_of
      (I := Gives e₀.ref column w) (fun name _ hkind _ _ s v hs =>
        hs.setValue (Or.inr fun heq => hsame ?_)) u hu.2)).imp
          (fun _ v hv => ⟨hv.1.1, hv.2.1⟩) fun _ v h => hC v h.1
    exact honly l' hl' (heq ▸ hkind)

/-! ## Rows -/

omit hW

include hT

omit hp in
/-- Inserting the row of a new record is one step. -/
theorem ends_insertRow (hs : I s) {e₀ : Entry} (he₀ : e₀ ∈ es) {Q : Session → Prop}
    (hQ : ∀ e db' row, s.known? e₀.ref = some e → e.model = e₀.model →
      s.db.insert e.model.rootTable (newCells e e.model.rootTable) = .ok (db', row) →
      Q (({ s with db := db' } : Session).modify e.ref fun e' =>
        { e' with key := e'.model.keyNames.map (Row.get row) })) :
    Ends (insertRow e₀.model.rootTable e₀.ref) s (fun _ t => Q t) fun _ t => I t := by
  refine (still_entry e₀.ref).ends_bind (fun e he => ?_) fun _ => hs
  obtain ⟨-, href, hframe, -, -⟩ := of_known? hs₀ hT hes hs he₀ he
  have hmodel := Entry.model_of_frame hframe
  refine still_database.ends_bind (fun db hdb => ?_) fun _ => hs
  subst hdb
  rw [← hmodel]
  cases hins : s.db.insert e.model.rootTable (newCells e e.model.rootTable) with
  | error f => exact hs
  | ok p =>
    have hstep := hQ e p.1 p.2 he hmodel hins
    rw [href] at hstep
    simp only [ofExcept_ok, pure_bind, ends_bind, ends_modify, beq_self_eq_true, if_true,
      ends_modifyEntry]
    exact hstep

/-- Writing the changed cells of a stored record is one step, or there are none. -/
theorem ends_updateRow (hs : I s) {e₀ : Entry} (he₀ : e₀ ∈ es) (hstored : e₀.isStored = true)
    {Q : Session → Prop}
    (hQ : ∀ e k row, s.known? e₀.ref = some e → e.model = e₀.model → e.key = [.int k] →
      s.db.row? e.model.rootTable k = some row →
      (changedCells e e.model.rootTable row = [] → Q s) ∧
        ∀ db', s.db.update e.model.rootTable e.key (changedCells e e.model.rootTable row) =
          .ok db' → Q (({ s with db := db' } : Session).modify e.ref fun e' =>
            { e' with key := e'.model.keyNames.map fun k => (e'.given? k).getD (Row.get row k) })) :
    Ends (updateRow e₀.model.rootTable e₀.ref) s (fun _ t => Q t) fun _ t => I t := by
  refine (still_entry e₀.ref).ends_bind (fun e he => ?_) fun _ => hs
  obtain ⟨-, href, hframe, -, hsaved⟩ := of_known? hs₀ hT hes hs he₀ he
  have hmodel := Entry.model_of_frame hframe
  have hphase := Entry.phase_of_frame hframe
  have hkey := hsaved.stored (by simpa [Entry.isStored, hphase] using hstored)
  obtain ⟨k, row, hk, hrow, -⟩ := hsaved.row hkey
  obtain ⟨hempty, hwrite⟩ := hQ e k row he hmodel hk hrow
  rw [← hmodel]
  refine (still_row? e.model.rootTable e.key).ends_bind (fun o ho => ?_) fun _ => hs
  obtain ⟨t, ht, rfl⟩ := ho
  rw [hk, (hT.saving hs).sound.find? hp ht, hrow]
  dsimp only
  split
  · next hnil => exact hempty (List.isEmpty_iff.1 hnil)
  · refine still_database.ends_bind (fun db hdb => ?_) fun _ => hs
    subst hdb
    rw [← hk]
    cases hupd : s.db.update e.model.rootTable e.key (changedCells e e.model.rootTable row) with
    | error f => exact hs
    | ok db' =>
      have hstep := hwrite db' hupd
      rw [href] at hstep
      exact hstep

omit hp in
theorem keeps_insertRow {e₀ : Entry} (he₀ : e₀ ∈ es) (hpending : e₀.isPending = true) :
    Keeps I (insertRow e₀.model.rootTable e₀.ref) fun _ => True := by
  intro s hs
  refine ends_insertRow hs₀ hT hes hs he₀ fun e db' row he _ hins => ⟨?_, trivial⟩
  obtain ⟨hmem, href, hframe, -, -⟩ := of_known? hs₀ hT hes hs he₀ he
  have hphase := Entry.phase_of_frame hframe
  exact hT.insert hs hmem (by simpa [Entry.isPending, hphase] using hpending) hins

theorem keeps_updateRow {e₀ : Entry} (he₀ : e₀ ∈ es) (hstored : e₀.isStored = true) :
    Keeps I (updateRow e₀.model.rootTable e₀.ref) fun _ => True := by
  intro s hs
  refine ends_updateRow hp hs₀ hT hes hs he₀ hstored fun e k row he _ hk hrow =>
    ⟨fun _ => ⟨hs, trivial⟩, fun db' hupd => ⟨?_, trivial⟩⟩
  obtain ⟨hmem, href, hframe, -, -⟩ := of_known? hs₀ hT hes hs he₀ he
  have hphase := Entry.phase_of_frame hframe
  exact hT.update hs hmem (by simpa [Entry.isStored, hphase] using hstored) hk hrow hupd

/-! ## Tables -/

omit hp hs₀ hT hes in
/-- The groups of records are those that are to be written, each in one of them. -/
theorem levels_spec {edges : List (Ref × Ref)} {fuel : Nat} {todo : List Ref}
    {groups : List (List Ref)} (h : levels edges fuel todo = .ok groups) (r : Ref) :
    r ∈ todo ↔ ∃ g ∈ groups, r ∈ g := by
  induction fuel generalizing todo groups with
  | zero =>
    cases todo with
    | nil =>
      cases h
      simp
    | cons x todo => cases h
  | succ fuel ih =>
    cases todo with
    | nil =>
      cases h
      simp
    | cons x todo =>
      unfold levels at h
      dsimp only at h
      split at h
      · cases h
      · obtain ⟨rest, hrest, h⟩ := bind_eq_ok.1 h
        obtain rfl := pure_eq_ok.1 h
        generalize x :: todo = all at hrest ⊢
        have hsub : ∀ r ∈ all.filter fun r => !edges.any fun e => e.2 == r && all.contains e.1,
            r ∈ all := fun r hr => (List.mem_filter.1 hr).1
        generalize (all.filter fun r => !edges.any fun e => e.2 == r && all.contains e.1) = free
          at hrest hsub ⊢
        simp only [List.mem_cons, exists_eq_or_imp]
        rw [← ih hrest]
        simp only [List.mem_filter, Bool.not_eq_true', ← Bool.not_eq_true, List.contains_iff_mem]
        by_cases hr : r ∈ free
        · simp [hr, hsub r hr]
        · simp [hr]

/-! ## Levels of records -/

/-- The rows that are written to a table are those of records that are kept there. -/
theorem keeps_saveRows {stored new : List Entry} {table : String}
    (hstored : ∀ e ∈ stored, e ∈ es ∧ e.isStored = true)
    (hnew : ∀ e ∈ new, e ∈ es ∧ e.isPending = true) :
    Keeps I (saveRows stored new table) fun _ => True := by
  have htable : ∀ e ∈ es, e.model.tables.contains table = true → table = e.model.rootTable := by
    intro e he h
    simpa [hp.tables_eq _ (hs₀.draft e (hes e he).1).model] using h
  refine Keeps.bind (keeps_forM fun e he => ?_) fun _ _ => keeps_forM fun e he => ?_
  · obtain ⟨he, hrow⟩ := List.mem_filter.1 he
    obtain ⟨he, hst⟩ := hstored e he
    exact htable e he hrow ▸ keeps_updateRow hp hs₀ hT hes he hst
  · obtain ⟨he, hrow⟩ := List.mem_filter.1 he
    obtain ⟨he, hpending⟩ := hnew e he
    exact htable e he hrow ▸ keeps_insertRow hs₀ hT hes he hpending

omit hp hs₀ hT hes in
/-- The records of a level that are not deleted, as `saveLevel` writes them. -/
theorem mem_level {p : Entry → Bool} {le : Entry → Entry → Bool} {level : List Ref} {e : Entry} :
    e ∈ ((es.filter fun e => level.contains e.ref && !e.isDoomed).filter p).mergeSort le ↔
      e ∈ es ∧ e.ref ∈ level ∧ e.isDoomed = false ∧ p e = true := by
  simp only [List.mem_mergeSort, List.mem_filter, Bool.and_eq_true, List.contains_iff_mem,
    Bool.not_eq_true', and_assoc]

omit hp hs₀ hT hes in
/-- The levels of a root table are those of its records. -/
theorem mem_levels {root : String} {groups : List (List Ref)}
    (h : levels (edges (es.filter fun e => e.model.rootTable == root))
      (es.filter fun e => e.model.rootTable == root).length
      ((es.filter fun e => e.model.rootTable == root).map Entry.ref) = .ok groups) (r : Ref) :
    (∃ g ∈ groups, r ∈ g) ↔ ∃ e ∈ es, e.model.rootTable = root ∧ e.ref = r := by
  rw [← levels_spec h]
  simp [and_assoc]

section

variable {C : Session → Prop} (hI : c.Passing s₀ es C I)

omit hT

include hI

theorem takes_saveLevel_self {level : List Ref} (hlevel : ∀ r ∈ level, ∃ e ∈ es, e.ref = r) :
    Takes C I I (saveLevel es level) := by
  refine (takes_forM_self fun r hr => ?_).bind fun _ => takes_forM_self fun table _ => ?_
  · obtain ⟨e, he, rfl⟩ := hlevel r hr
    exact hI.referToAll e he
  · refine (keeps_saveRows hp hs₀ hI.toRowWriting hes (fun e he => ?_) fun e he => ?_).takes
      hI.fails <;> exact ⟨(mem_level.1 he).1, (mem_level.1 he).2.2.2⟩

theorem takes_saveTable_self (root : String) : Takes C I I (saveTable es root) :=
  takes_ofExcept _ (fun _ hgroups => takes_forM_self fun g hg =>
    takes_saveLevel_self hp hs₀ hes hI fun r hr =>
      ((mem_levels hgroups r).1 ⟨g, hg, hr⟩).imp fun _ h => ⟨h.1, h.2.2⟩) hI.fails

theorem takes_saveTables_self : Takes C I I (c.rootTables.forM (saveTable es)) :=
  takes_forM_self fun root _ => takes_saveTable_self hp hs₀ hes hI root

end

section

omit hT

include hW

/-- What every step keeps stays when all columns of a record are filled in. -/
theorem passing {C : Session → Prop} (hC : ∀ s, I s → C s) : c.Passing s₀ es C I where
  toRowWriting := hW.toRowWriting
  fails := hC
  referToAll := fun _ he => (keeps_referToAll hp hs₀ hW hes he).takes hC

theorem keeps_saveLevel {level : List Ref} (hlevel : ∀ r ∈ level, ∃ e ∈ es, e.ref = r) :
    Keeps I (saveLevel es level) fun _ => True :=
  (takes_saveLevel_self hp hs₀ hes (passing hp hs₀ hW hes fun _ h => h) hlevel).keeps

theorem keeps_saveTable (root : String) : Keeps I (saveTable es root) fun _ => True :=
  (takes_saveTable_self hp hs₀ hes (passing hp hs₀ hW hes fun _ h => h) root).keeps

theorem keeps_saveTables : Keeps I (c.rootTables.forM (saveTable es)) fun _ => True :=
  (takes_saveTables_self hp hs₀ hes (passing hp hs₀ hW hes fun _ h => h)).keeps

end

/-! ## What the writing of one record establishes -/

omit hp hs₀ hT hes in
/-- Filling in the columns of a record leads from `I` to `I'`, and writing its row from there
to `J`; if that fails there is `C`. -/
structure Establishes (es : List Entry) (e₀ : Entry) (C I I' J : Session → Prop) : Prop where
  mem : e₀ ∈ es
  kept : e₀.isDoomed = false
  refer : Takes C I I' (referToAll es e₀.ref)
  update : e₀.isStored = true → Takes C I' J (updateRow e₀.model.rootTable e₀.ref)
  insert : e₀.isPending = true → Takes C I' J (insertRow e₀.model.rootTable e₀.ref)

variable {C I' J : Session → Prop} (hI : c.Passing s₀ es C I) (hI' : c.Passing s₀ es C I')
  (hJ : c.Passing s₀ es C J) {e₀ : Entry} (he : Establishes es e₀ C I I' J)

omit hT

include hI hI' hJ he

omit hI in
theorem takes_saveRows {stored new : List Entry}
    (hstored : ∀ e ∈ stored, e ∈ es ∧ e.isStored = true)
    (hnew : ∀ e ∈ new, e ∈ es ∧ e.isPending = true) (hmem : e₀.isStored = true → e₀ ∈ stored)
    (hmem' : e₀.isPending = true → e₀ ∈ new) :
    Takes C I' J (saveRows stored new e₀.model.rootTable) := by
  have htables : ∀ e ∈ es, e.model.tables = [e.model.rootTable] := fun e h =>
    hp.tables_eq _ (hs₀.draft e (hes e h).1).model
  have hrow : e₀.model.tables.contains e₀.model.rootTable = true := by simp [htables e₀ he.mem]
  have hupdate : ∀ {K : Session → Prop}, c.Passing s₀ es C K →
      ∀ e ∈ stored.filter fun e => e.model.tables.contains e₀.model.rootTable,
        Takes C K K (updateRow e₀.model.rootTable e.ref) := by
    intro K hK e h
    obtain ⟨h, hrow⟩ := List.mem_filter.1 h
    obtain ⟨h, hst⟩ := hstored e h
    have hroot : e₀.model.rootTable = e.model.rootTable := by simpa [htables e h] using hrow
    exact hroot ▸ (keeps_updateRow hp hs₀ hK.toRowWriting hes h hst).takes hK.fails
  have hinsert : ∀ {K : Session → Prop}, c.Passing s₀ es C K →
      ∀ e ∈ new.filter fun e => e.model.tables.contains e₀.model.rootTable,
        Takes C K K (insertRow e₀.model.rootTable e.ref) := by
    intro K hK e h
    obtain ⟨h, hrow⟩ := List.mem_filter.1 h
    obtain ⟨h, hst⟩ := hnew e h
    have hroot : e₀.model.rootTable = e.model.rootTable := by simpa [htables e h] using hrow
    exact hroot ▸ (keeps_insertRow hs₀ hK.toRowWriting hes h hst).takes hK.fails
  cases hst : e₀.isStored with
  | true =>
    refine Takes.bind (takes_forM (a := e₀) (List.mem_filter.2 ⟨hmem hst, hrow⟩) (hupdate hI')
      (hupdate hJ) (he.update hst)) fun _ => takes_forM_self (hinsert hJ)
  | false =>
    have hpending : e₀.isPending = true := by
      have hmember := (hes e₀ he.mem).2
      cases hph : e₀.phase <;> simp_all [Entry.isMember, Entry.isStored, Entry.isPending]
    refine (takes_forM_self (hupdate hI')).bind fun _ => takes_forM (a := e₀)
      (List.mem_filter.2 ⟨hmem' hpending, hrow⟩) (hinsert hI') (hinsert hJ) (he.insert hpending)

theorem takes_saveLevel {level : List Ref} (hlevel : ∀ r ∈ level, ∃ e ∈ es, e.ref = r)
    (hmem : e₀.ref ∈ level) : Takes C I J (saveLevel es level) := by
  have hrefer : ∀ {K : Session → Prop}, c.Passing s₀ es C K → ∀ r ∈ level,
      Takes C K K (referToAll es r) := by
    intro K hK r hr
    obtain ⟨e, h, rfl⟩ := hlevel r hr
    exact hK.referToAll e h
  refine (takes_forM hmem (hrefer hI) (hrefer hI') he.refer).bind fun _ => ?_
  have hspec : ∀ {p : Entry → Bool} {le : Entry → Entry → Bool} {e : Entry},
      e ∈ ((es.filter fun e => level.contains e.ref && !e.isDoomed).filter p).mergeSort le →
        e ∈ es ∧ p e = true := fun h => ⟨(mem_level.1 h).1, (mem_level.1 h).2.2.2⟩
  refine takes_forM (a := e₀.model.rootTable) ?_ (fun table _ => ?_) (fun table _ => ?_) ?_
  · rw [List.mem_eraseDups, List.mem_flatMap]
    refine ⟨e₀, List.mem_filter.2 ⟨he.mem, by simp [hmem, he.kept]⟩, ?_⟩
    simp [hp.tables_eq _ (hs₀.draft e₀ (hes e₀ he.mem).1).model]
  · exact (keeps_saveRows hp hs₀ hI'.toRowWriting hes (fun _ => hspec) fun _ => hspec).takes
      hI'.fails
  · exact (keeps_saveRows hp hs₀ hJ.toRowWriting hes (fun _ => hspec) fun _ => hspec).takes
      hJ.fails
  · exact takes_saveRows hp hs₀ hes hI' hJ he (fun _ => hspec) (fun _ => hspec)
      (fun h => mem_level.2 ⟨he.mem, hmem, he.kept, h⟩)
      fun h => mem_level.2 ⟨he.mem, hmem, he.kept, h⟩

theorem takes_saveTable : Takes C I J (saveTable es e₀.model.rootTable) := by
  refine takes_ofExcept _ (fun groups hgroups => ?_) hI.fails
  have hspec : ∀ g ∈ groups, ∀ r ∈ g, ∃ e ∈ es, e.ref = r := fun g hg r hr =>
    ((mem_levels hgroups r).1 ⟨g, hg, hr⟩).imp fun e h => ⟨h.1, h.2.2⟩
  obtain ⟨g, hg, hr⟩ := (mem_levels hgroups e₀.ref).2 ⟨e₀, he.mem, rfl, rfl⟩
  exact takes_forM hg (fun g hg => takes_saveLevel_self hp hs₀ hes hI (hspec g hg))
    (fun g hg => takes_saveLevel_self hp hs₀ hes hJ (hspec g hg))
    (takes_saveLevel hp hs₀ hes hI hI' hJ he (hspec g hg) hr)

/-- What the writing of one record establishes holds after all tables are written. -/
theorem takes_saveTables : Takes C I J (c.rootTables.forM (saveTable es)) := by
  have hroot := hp.ordered _ (hs₀.draft e₀ (hes e₀ he.mem).1).model
  exact takes_forM hroot (fun root _ => takes_saveTable_self hp hs₀ hes hI root)
    (fun root _ => takes_saveTable_self hp hs₀ hes hJ root)
    (takes_saveTable hp hs₀ hes hI hI' hJ he)

end Act

end Hypermedia
