import Hypermedia.Proofs.Session.Filling

/-!
# What belongs to an owner

A new record that is attached to an owner is linked to this owner alone, whatever a payload gave
to the link before (`Act.ends_attach_points`). When it is stored, the column that keeps the link
refers to the owner (`Catalog.IsOwned.yields`): owners that were given the record as a member may
fill the column as well, but the link of the record itself comes last (`Act.takes_referToAll`), and
nothing that is written later changes the column.
-/

namespace Hypermedia

/-- The link of a record, if it is known, is read and leads to one other record alone. -/
def Session.Points (r : Ref) (name : String) (o : Ref) (s : Session) : Prop :=
  ∀ e ∈ s.entries, e.ref = r → ∃ before, Fields.get? name e.links = some (.read before [o])

/-- Changing records in a way that leaves the link as it is. -/
theorem Session.Points.modify {s : Session} {r o : Ref} {name : String} (h : s.Points r name o)
    {x : Ref} {f : Entry → Entry}
    (hf : ∀ e, (f e).ref = e.ref ∧ Fields.get? name (f e).links = Fields.get? name e.links) :
    (s.modify x f).Points r name o := by
  intro e he href
  obtain ⟨e₀, he₀, ⟨-, rfl⟩ | ⟨-, rfl⟩⟩ := Session.mem_modify he
  · rw [(hf e₀).2]
    exact h e₀ he₀ ((hf e₀).1.symm.trans href)
  · exact h _ he₀ href

theorem Entry.get?_setLink (e : Entry) {name other : String} (h : name ≠ other) (st : LinkState) :
    Fields.get? name (e.setLink other st).links = Fields.get? name e.links :=
  (Fields.get?_rebind e.links other st name).trans (if_neg h)

/-- A link that is set to another record alone leads to it alone. -/
theorem Session.points_setLink (s : Session) {r o : Ref} {name : String} {f : Entry → LinkState}
    (hf : ∀ e, ∃ before, f e = .read before [o]) :
    (s.modify r fun e => e.setLink name (f e)).Points r name o := by
  intro e he href
  obtain ⟨e₀, -, ⟨-, rfl⟩ | ⟨hne, rfl⟩⟩ := Session.mem_modify he
  · exact (hf e₀).imp fun before h => ((Fields.get?_rebind e₀.links name _ name).trans
      (if_pos rfl)).trans (congrArg some h)
  · exact absurd href hne

namespace Catalog

variable {c : Catalog} {D : Database} {I : Session → Prop} {r o : Ref} {name : String}

/-- A link that is read is not read again. -/
theorem Reading.points (hI : c.Reading D I) (hnext : ∀ s, I s → r.number < s.next) :
    c.Reading D fun s => I s ∧ s.Points r name o where
  drafts := fun h => hI.drafts h.1
  receive := by
    intro s m n row h hnew hn hno
    refine ⟨hI.receive h.1 hnew hn hno, fun e he href => ?_⟩
    rcases List.mem_append.1 he with he | he
    · exact h.2 e he href
    · obtain rfl := List.mem_singleton.1 he
      have hlt := hnext s h.1
      rw [← href] at hlt
      exact absurd hlt (Nat.lt_irrefl _)
  readLink := by
    intro s₀ s e₀ e l added removed stored h₀ hseen he₀ href₀ hmodel hphase hst h he hl hlinked
    refine ⟨hI.readLink h₀.1 hseen he₀ href₀ hmodel hphase hst h.1 he hl hlinked,
      fun e' he' href => ?_⟩
    obtain ⟨e₁, he₁, ⟨href₁, rfl⟩ | ⟨-, rfl⟩⟩ := Session.mem_modify he'
    swap
    · exact h.2 _ he₁ href
    by_cases hname : name = l.name
    · -- The link would not be read again.
      obtain ⟨before, hread⟩ := h₀.2 e₀ he₀ (href₀.trans (href₁.symm.trans href))
      rw [Entry.linkState, ← hname, hread] at hst
      cases hst
    · rw [Entry.get?_setLink e₁ hname]
      exact h.2 e₁ he₁ href

end Catalog

namespace Act

variable {c : Catalog} {D : Database} {I : Session → Prop} {r o : Ref} {name : String}

/-! ## Linking a new record to its owner -/

theorem keeps_enroll_points (x : Ref) :
    Keeps (Session.Points r name o) (enroll x) fun _ => True :=
  fun _ hs => ⟨hs.modify fun e => by split <;> exact ⟨rfl, rfl⟩, trivial⟩

/-- A record that belongs to its owner still does when records are to be stored. -/
theorem enrolling_points (hI : c.Enrolling D I) :
    c.Enrolling D fun s => I s ∧ s.Points r name o where
  drafts := fun h => hI.drafts h.1
  enroll := fun x => ((hI.enroll x).and (keeps_enroll_points x)).true

theorem keeps_markKept_points (l : Link) (x : Ref) :
    Keeps (Session.Points r name o) (markKept l x) fun _ => True :=
  fun _ hs => ⟨hs.modify fun _ => ⟨rfl, rfl⟩, trivial⟩

theorem keeps_markLost_points (l : Link) (x : Ref) :
    Keeps (Session.Points r name o) (markLost l x) fun _ => True :=
  fun _ hs => ⟨hs.modify fun _ => ⟨rfl, rfl⟩, trivial⟩

theorem keeps_push_points {l : Link} (hl : name ≠ l.name) (owner x : Ref) :
    Keeps (Session.Points r name o) (push owner l x) fun _ => True :=
  Keeps.bind (P := fun _ => True) (fun _ hs => ⟨hs.modify fun e => ⟨rfl, e.get?_setLink hl _⟩,
    trivial⟩) fun _ _ => keeps_markKept_points l x

theorem keeps_pull_points {l : Link} (hl : name ≠ l.name) (owner x : Ref) :
    Keeps (Session.Points r name o) (pull owner l x) fun _ => True :=
  Keeps.bind (P := fun _ => True) (fun _ hs => ⟨hs.modify fun e => ⟨rfl, e.get?_setLink hl _⟩,
    trivial⟩) fun _ _ => keeps_markLost_points l x

theorem keeps_cascade_points (owner x : Ref) :
    Keeps (Session.Points r name o) (cascade owner x) fun _ => True :=
  (keeps_isMember owner).bind fun _ _ => (keeps_isMember x).bind fun _ _ =>
    keeps_ite (fun _ => keeps_add keeps_enroll_points x) fun _ => keeps_pure trivial

/-- A record that is attached by way of its own link to one is linked to the owner alone. -/
theorem ends_attach_points (hI : c.Editing D I) (hp : c.Plain) (hD : c.Sound D) {m : Model}
    (hm : c.model? r.model = some m) {back : Link} (hback : m.link? back.name = some back)
    (hone : back.isList = false)
    (hinverse : ∀ l, inverseOf c back = some l → l.isList = true ∧ back.name ≠ l.name)
    {owner : Ref} {rel : Relationship} (hrel : rel.inverse = some back.name) {s : Session}
    (hs : I s) : Ends (attach c owner rel r) s (fun _ t => t.Points r back.name owner)
      fun _ _ => True := by
  have hhas : c.Has r back := ⟨m, hm, List.mem_of_find?_eq_some hback⟩
  -- What follows on the other side leaves the link as it is.
  have hlose : ∀ x, Keeps (Session.Points r back.name owner) (lose c r back x) fun _ => True := by
    refine fun x => (keeps_markLost_points back x).bind fun _ _ => ?_
    unfold echoLoss
    split
    · exact keeps_pure trivial
    · next l hl =>
      obtain ⟨hlist, hne⟩ := hinverse l hl
      unfold release
      rw [if_pos hlist]
      exact keeps_pull_points hne x r
  have hkeep : Keeps (Session.Points r back.name owner) (keep c r back owner) fun _ => True := by
    refine (keeps_markKept_points back owner).bind fun _ _ => ?_
    unfold echoGain
    split
    · exact keeps_pure trivial
    · next l hl =>
      obtain ⟨hlist, hne⟩ := hinverse l hl
      rw [if_pos hlist]
      exact keeps_push_points hne owner r
  unfold attach
  rw [hrel]
  refine (keeps_entry hI r).ends_bind hs (fun e t ht he => ?_) fun _ _ _ => trivial
  obtain ⟨he, href⟩ := he
  have hmodel : e.model = m := Option.some.inj ((he.model?_eq hp).symm.trans (href ▸ hm))
  rw [hmodel, hback]
  unfold addLinked
  dsimp only
  rw [hone, if_neg Bool.false_ne_true]
  unfold setOne putOne
  rw [bind_assoc]
  refine (keeps_peek hI hp hD hhas).ends_bind ht (fun old u hu _ => ?_) fun _ _ _ => trivial
  simp only [bind_assoc, ends_bind, ends_modifyEntry, pure_bind]
  have hrest : Keeps (Session.Points r back.name owner)
      (if old == some (some owner).toList then pure ()
        else do
          (some owner).forM (cascade r)
          (old.getD []).forM (lose c r back)
          (some owner).forM (keep c r back)) fun _ => True :=
    keeps_ite (fun _ => keeps_pure trivial) fun _ =>
      Keeps.bind (P := fun _ => True) (keeps_cascade_points r owner) fun _ _ =>
        Keeps.bind (P := fun _ => True) (keeps_forM fun x _ => hlose x) fun _ _ => hkeep
  refine (hrest _ (u.points_setLink fun e => ?_)).imp (fun _ _ h => h.1) fun _ _ _ => trivial
  cases e.linkState back.name with
  | read before now => exact ⟨before, rfl⟩
  | unread added removed => exact ⟨old, rfl⟩

end Act

/-! ## Storing a new record of an owner -/

namespace Catalog

/-- A new record that is linked to a stored owner and to nothing else by the link that fills a
column. -/
structure IsOwned (c : Catalog) (s₀ : Session) (e₀ : Entry) (back : Link) (column : String)
    (o : Ref) (i : Int) : Prop where
  mem : e₀ ∈ s₀.entries
  pending : e₀.isPending = true
  link : back ∈ e₀.model.links
  kind : back.kind = .reference column
  only : ∀ l ∈ e₀.model.links, l.kind = .reference column → l = back
  points : s₀.Points e₀.ref back.name o
  owner : ∀ e ∈ s₀.entries, e.ref = o → e.key = [.int i]

/-- A session that is writing, in which the owner has its key. -/
def Numbered (c : Catalog) (s₀ : Session) (o : Ref) (i : Int) (s : Session) : Prop :=
  c.Saving s₀ s ∧ ∀ e ∈ s.entries, e.ref = o → e.key = [.int i]

variable {c : Catalog} {D : Database} {s₀ s : Session} {e₀ : Entry} {back : Link}
  {column : String} {o : Ref} {i : Int} (hs₀ : c.Drafts D s₀) (h : c.IsOwned s₀ e₀ back column o i)

namespace IsOwned

include hs₀ h

/-- The row of an owner is there, so that its key stays. -/
theorem writing_numbered (hp : c.Plain) : c.Writing s₀ (c.Numbered s₀ o i) := by
  refine hs₀.writing_key (P := (· = [.int i])) hp o fun e he href hpending => ?_
  have hstored : e.isStored = false := by
    cases hph : e.phase <;> simp_all [Entry.isStored, Entry.isPending]
  have hkey := h.owner e he href
  rw [(hs₀.draft e he).unstored hstored] at hkey
  cases hkey

theorem isStored_eq (hs : c.Saving s₀ s) {e : Entry} (he : e ∈ s.entries) (href : e.ref = e₀.ref) :
    e.isStored = false := by
  have hpending := h.pending
  rw [Entry.isPending, ← Entry.phase_of_frame (hs.frame_eq hs₀ he h.mem href)] at hpending
  cases hph : e.phase <;> simp_all [Entry.isStored]

end IsOwned

end Catalog

namespace Act

open Catalog

variable {c : Catalog} {D : Database} {s₀ s : Session} {e₀ : Entry} {back : Link}
  {column : String} {o : Ref} {i : Int} {es : List Entry}

/-- The row of a record, when there is one, has a value in a column. -/
def RowHas (r : Ref) (column : String) (u : Value) (s : Session) : Prop :=
  ∀ e ∈ s.entries, e.ref = r → e.key ≠ [] → e.shown s.db column = u

/-- Giving a value to a column changes no row. -/
theorem RowHas.setValue {r x : Ref} {name : String} {u v : Value} (h : RowHas r column u s) :
    RowHas r column u (s.modify x fun e => e.setValue name v) := by
  intro e he href hkey
  obtain ⟨e₁, he₁, ⟨-, rfl⟩ | ⟨-, rfl⟩⟩ := Session.mem_modify he
  · exact h e₁ he₁ href hkey
  · exact h _ he₁ href hkey

section

variable (hp : c.Plain) (hs₀ : c.Drafts D s₀) (h : c.IsOwned s₀ e₀ back column o i)
  (hes : ∀ e ∈ es, e ∈ s₀.entries ∧ e.isMember = true) (he₀ : e₀ ∈ es)

include hp hs₀ h hes he₀

omit hp hes he₀ in
/-- A new record that was given a value is one that is to get it. -/
theorem primed_of_gives {t : Session} {w : Value} (ht : c.Saving s₀ t)
    (hgives : Gives e₀.ref column w t) : c.Primed e₀.ref column w s₀ t :=
  ⟨ht, fun e he href => ⟨h.isStored_eq hs₀ ht he href, hgives e he href⟩⟩

/-- After all links of the record filled in their columns, the column refers to the owner. -/
theorem takes_referToOthers_owned : Takes (fun t => t.committed = s₀.committed)
    (c.Numbered s₀ o i) (fun t => c.Numbered s₀ o i t ∧ c.Primed e₀.ref column (.int i) s₀ t)
    (referToOthers e₀.ref) := by
  have hK := h.writing_numbered hs₀ hp
  refine fun s hs => (takes_referToOthers (w := .int i) hp hs₀ hK hes (fun _ h => h.1.committed)
    he₀ h.link h.only (fun e hframe u hu => ?_) s hs).imp
      (fun _ t ht => ⟨ht.1, primed_of_gives hs₀ h ht.1.1 ht.2⟩) fun _ _ h => h
  refine (ends_referLink hp hs₀ hK hes hu he₀ hframe h.link).imp (fun _ v hv => ?_)
    fun _ _ h => h.1.committed
  obtain ⟨hv, hlink⟩ := hv
  obtain ⟨before, hpoints⟩ := h.points e₀ h.mem rfl
  obtain ⟨o', ho', hgiven⟩ := (hlink column _ h.kind hpoints (by simp [h.pending])).2 o [] rfl
  obtain ⟨ho', href'⟩ := Session.known?_mem ho'
  have hkey := hu.2 o' ho' href'
  have hmember : o'.isMember = true := by
    by_contra hno
    rw [((hu.1.saved o' ho').loose (by simpa using hno)).1] at hkey
    cases hkey
  refine ⟨hv, fun e' he' href => ?_⟩
  rw [hgiven hmember e' (href ▸ hv.1.known?_eq hs₀ he'), keyValue, hkey]
  rfl

/-- Whatever owners the record was given to as a member, its own link comes last. -/
theorem takes_referToAll : Takes (fun t => t.committed = s₀.committed) (c.Numbered s₀ o i)
    (fun t => c.Numbered s₀ o i t ∧ c.Primed e₀.ref column (.int i) s₀ t)
    (referToAll es e₀.ref) := by
  have hK := h.writing_numbered hs₀ hp
  exact ((keeps_unrefer hp hs₀ hK hes he₀).takes fun _ h => h.1.committed).bind fun _ =>
    ((keeps_referToOwners hp hs₀ hK hes he₀).takes fun _ h => h.1.committed).bind fun _ =>
      takes_referToOthers_owned hp hs₀ h hes he₀

theorem takes_referToAll_self {e : Entry} (he : e ∈ es) :
    Takes (fun t => t.committed = s₀.committed)
      (fun t => c.Numbered s₀ o i t ∧ c.Primed e₀.ref column (.int i) s₀ t)
      (fun t => c.Numbered s₀ o i t ∧ c.Primed e₀.ref column (.int i) s₀ t)
      (referToAll es e.ref) := by
  have hK := h.writing_numbered hs₀ hp
  by_cases hself : e.ref = e₀.ref
  · exact fun u hu => hself ▸ takes_referToAll hp hs₀ h hes he₀ u hu.1
  · exact fun u hu => ((keeps_referToAll hp hs₀ hK hes he u hu.1).and (keeps_referToAll_of
      (I := Gives e₀.ref column (.int i)) (fun s name v hs => hs.setValue (Or.inl hself)) u
      fun e' he' href => (hu.2.given e' he' href).2)).imp
        (fun _ v hv => ⟨hv.1.1, primed_of_gives hs₀ h hv.1.1.1 hv.2.1⟩)
        fun _ _ h => h.1.1.committed

/-- Filling in columns passes on that the column is to refer to the owner. -/
theorem passing_primed : c.Passing s₀ es (fun t => t.committed = s₀.committed)
    fun t => c.Numbered s₀ o i t ∧ c.Primed e₀.ref column (.int i) s₀ t where
  toRowWriting := (h.writing_numbered hs₀ hp).toRowWriting.and (Primed.rowWriting hp hs₀)
  fails := fun _ h => h.1.1.committed
  referToAll := fun _ he => takes_referToAll_self hp hs₀ h hes he₀ he

variable {x : MappedColumn} (hx : e₀.model.column? column = some x)
  (hstore : x.column.type.store (.int i) = .ok (.int i))

include hx hstore

theorem passing_filling : c.Passing s₀ es (fun t => t.committed = s₀.committed)
    fun t => c.Numbered s₀ o i t ∧ c.Filling e₀.ref column (.int i) (.int i) s₀ t where
  toRowWriting := (h.writing_numbered hs₀ hp).toRowWriting.and (Filling.rowWriting hp hs₀
    ((hs₀.draft e₀ h.mem).model?_eq hp) hx rfl hstore)
  fails := fun _ h => h.1.1.committed
  referToAll := by
    intro e he u hu
    exact ((takes_referToAll_self hp hs₀ h hes he₀ he u ⟨hu.1, hu.2.toPrimed⟩).and
      (keeps_referToAll_of (I := RowHas e₀.ref column (.int i))
        (fun s name v hs => hs.setValue) u hu.2.shown)).imp
        (fun _ v hv => ⟨hv.1.1, hv.1.2, hv.2.1⟩) fun _ _ h => h.1

/-- The row of the record refers to the owner. -/
theorem takes_insertRow_owned : Takes (fun t => t.committed = s₀.committed)
    (fun t => c.Numbered s₀ o i t ∧ c.Primed e₀.ref column (.int i) s₀ t)
    (fun t => c.Numbered s₀ o i t ∧ c.Filling e₀.ref column (.int i) (.int i) s₀ t)
    (insertRow e₀.model.rootTable e₀.ref) := by
  intro s hs
  have hI := (passing_primed hp hs₀ h hes he₀).toRowWriting
  refine (ends_insertRow hs₀ hI hes hs he₀ fun e db' row he hmodel hins => ?_).imp
    (fun _ _ h => h) fun _ _ h => h.1.1.committed
  obtain ⟨hmem, href, hframe, -, -⟩ := of_known? hs₀ hI hes hs he₀ he
  have hpending : e.isPending = true := by
    have hpending := h.pending
    rwa [Entry.isPending, ← Entry.phase_of_frame hframe] at hpending
  exact ⟨(h.writing_numbered hs₀ hp).insert hs.1 hmem hpending hins,
    hs.2.insert hp hs₀ ((hs₀.draft e₀ h.mem).model?_eq hp) hx rfl hstore hmem href hpending hins⟩

end

end Act

/-- When a new record of an owner is stored, its row refers to the owner. -/
theorem Catalog.IsOwned.yields {c : Catalog} {D : Database} {H : Ref → Prop} {s₀ : Session}
    {e₀ : Entry} {back : Link} {column : String} {o : Ref} {i : Int}
    (h : c.IsOwned s₀ e₀ back column o i) (hp : c.Plain) (hD : c.Sound D)
    (hs₀ : c.Edited D H s₀) (hrange : storeInteger i = .ok (.int i)) :
    c.Yields s₀ (c.Filling e₀.ref column (.int i) (.int i) s₀) := by
  have hdrafts := hs₀.toDrafts
  have hmember : e₀.isMember = true := by
    have hpending := h.pending
    cases hph : e₀.phase <;> simp_all [Entry.isPending, Entry.isMember]
  obtain ⟨x, hx, hstore⟩ : ∃ x, e₀.model.column? column = some x ∧
      x.column.type.store (.int i) = .ok (.int i) := by
    have hmodel := (hdrafts.draft e₀ h.mem).model
    obtain ⟨t, -, hspec⟩ := hp.linkSpec hmodel h.link
    obtain ⟨x, hx, href⟩ := (Option.any_eq_true _ _).1 (hspec.reference column h.kind).2
    exact ⟨x, hx, hp.reference_type hmodel hx (by simpa using href) ▸ hrange⟩
  refine ⟨fun _ h => h.toSaving, fun hno => ?_, ?_⟩
  · have hchanges : Act.hasChanges s₀ = true :=
      List.any_eq_true.2 ⟨e₀, h.mem, by simp [hmember, h.pending]⟩
    exact absurd (hchanges.symm.trans hno) Bool.noConfusion
  have hes := fun e (he : e ∈ Act.involvedRecords s₀) => Act.mem_of_involvedRecords he
  have hdirty : Act.isDirty e₀ = true := by
    simp [Act.isDirty, hmember, hs₀.kept e₀ h.mem, h.pending]
  have hmem := Act.involvedRecords_of_isDirty h.mem hdirty
  have hstored : e₀.isStored = true → False := by
    simp [h.isStored_eq hdrafts (hdrafts.saving hD) h.mem rfl]
  exact (Act.takes_saveTables hp hdrafts hes
    (Act.passing hp hdrafts (h.writing_numbered hdrafts hp) hes fun _ h => h.1.committed)
    (Act.passing_primed hp hdrafts h hes hmem) (Act.passing_filling hp hdrafts h hes hmem hx hstore)
    ⟨hmem, hs₀.kept e₀ h.mem, Act.takes_referToAll hp hdrafts h hes hmem,
      fun hst => (hstored hst).elim,
      fun _ => Act.takes_insertRow_owned hp hdrafts h hes hmem hx hstore⟩ s₀
    ⟨hdrafts.saving hD, h.owner⟩).imp (fun _ _ h => h.2) fun _ _ h => h

end Hypermedia
