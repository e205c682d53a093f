import Hypermedia.Proofs.Session.Follow

/-!
# Linking among drafts

Giving something to links leaves a session of drafts one as long as a link is only given
records of its target (`Catalog.Joins`). What follows on the other side is of the same kind:
the link back leads from the target to the model of the link (`Joins.inverse`).

The columns of the records stay as they are, and so does their life as stored or new ones. What
a session may be is a parameter here: any property that such changes of a record keep
(`Catalog.Editing`).
-/

namespace Hypermedia

/-- A property of sessions of drafts that stays when a row gets known, and when a draft is
changed apart from what its columns were given. -/
structure Catalog.Editing (c : Catalog) (D : Database) (I : Session → Prop) : Prop extends
    c.Reading D I where
  modify : ∀ {s r f}, I s → (∀ e, c.Draft D e → e.ref = r → c.Draft D (f e) ∧ (f e).ref = e.ref ∧
    (f e).model = e.model ∧ (f e).isStored = e.isStored ∧ (f e).key = e.key ∧
      (f e).isDoomed = e.isDoomed ∧ (f e).values = e.values) → I (s.modify r f)

/-- A property of sessions of drafts that stays when records are to be stored. -/
structure Catalog.Enrolling (c : Catalog) (D : Database) (I : Session → Prop) : Prop where
  drafts : ∀ {s}, I s → c.Drafts D s
  enroll : ∀ r, Act.Keeps I (Act.enroll r) fun _ => True

/-- A link of a record, and a record to which it may lead. -/
def Catalog.Joins (c : Catalog) (r : Ref) (l : Link) (x : Ref) : Prop :=
  c.Has r l ∧ x.model = l.target

namespace Catalog

variable {c : Catalog} {D : Database} {H : Ref → Prop} {r x : Ref} {l back : Link}

/-- The link back joins the other way round. -/
theorem Joins.inverse (hp : c.Plain) (h : c.Joins r l x) (hb : Act.inverseOf c l = some back) :
    c.Joins x back r := by
  obtain ⟨⟨m, hm, hl⟩, hx⟩ := h
  obtain ⟨hmem, hname⟩ := model?_mem hm
  obtain ⟨t, ht, hspec⟩ := hp.linkSpec hmem hl
  have hback : l.inverse.bind t.link? = some back := by
    simpa [Act.inverseOf, ht, Option.bind_eq_bind] using hb
  obtain ⟨name, -, hlink⟩ := Option.bind_eq_some_iff.1 hback
  refine ⟨⟨t, hx ▸ ht, List.mem_of_find?_eq_some hlink⟩, ?_⟩
  rw [hspec.inverse back hback, hname]

theorem Edited.editing (hp : c.Plain) (hD : c.Sound D) : c.Editing D (c.Edited D H) where
  toReading := Edited.reading hp hD
  modify := fun h hf => h.modify fun e he hr =>
    have ⟨h1, h2, h3, h4, h5, h6, _⟩ := hf e he hr
    ⟨h1, h2, h3, h4, h5, h6⟩

/-- Two properties that such changes keep are kept together. -/
theorem Editing.and {I J : Session → Prop} (hI : c.Editing D I) (hJ : c.Editing D J) :
    c.Editing D fun s => I s ∧ J s where
  toReading := hI.toReading.and hJ.toReading
  modify := fun h hf => ⟨hI.modify h.1 hf, hJ.modify h.2 hf⟩

theorem Has.owns (hp : c.Plain) (h : c.Has r l) : l.owns = false := by
  obtain ⟨m, hm, hl⟩ := h
  obtain ⟨t, -, hspec⟩ := hp.linkSpec (model?_mem hm).1 hl
  exact hspec.owns

end Catalog

namespace Act

variable {c : Catalog} {D : Database} {I : Session → Prop} (hI : c.Editing D I) (hp : c.Plain)
  (hD : c.Sound D)

/-! ## Which records are stored together -/

include hI

theorem keeps_entry (r : Ref) : Keeps I (entry r) fun e => c.Draft D e ∧ e.ref = r := by
  refine Reads.keeps (fun _ => reads_entry r) ?_
  rintro s t e hs - ⟨rfl, he⟩
  obtain ⟨hmem, href⟩ := Session.known?_mem he
  exact ⟨(hI.drafts hs).draft e hmem, href⟩

theorem keeps_modifyEntry {r : Ref} {f : Entry → Entry}
    (hf : ∀ e, c.Draft D e → e.ref = r → c.Draft D (f e) ∧ (f e).ref = e.ref ∧
      (f e).model = e.model ∧ (f e).isStored = e.isStored ∧ (f e).key = e.key ∧
        (f e).isDoomed = e.isDoomed ∧ (f e).values = e.values) :
    Keeps I (modifyEntry r f) fun _ => True :=
  fun _ hs => ⟨hI.modify hs hf, trivial⟩

omit hI in
theorem keeps_isMember {I : Session → Prop} (r : Ref) : Keeps I (isMember r) fun _ => True :=
  (still_entry r).keeps.bind fun _ _ => keeps_pure trivial

theorem keeps_enroll (r : Ref) : Keeps I (enroll r) fun _ => True := by
  refine fun s hs => ⟨hI.modify hs fun e he _ => ?_, trivial⟩
  split
  · next hfresh =>
    have hstored : e.isStored = false := by simp [Entry.isStored, hfresh]
    refine ⟨?_, rfl, rfl, hstored.symm ▸ rfl, rfl, rfl, rfl⟩
    exact { he with
      phase := Or.inr (Or.inl ⟨_, rfl⟩)
      stored := fun h => nomatch h
      unstored := fun _ => he.unstored hstored
      kind := fun _ => he.kind hstored }
  · exact ⟨he, rfl, rfl, rfl, rfl, rfl, rfl⟩

/-- Such a property stays when records are to be stored. -/
theorem enrolling : c.Enrolling D I where
  drafts := hI.drafts
  enroll := keeps_enroll hI

omit hI in
/-- What is kept when a record is to be stored is kept when others are to be stored with it. -/
theorem keeps_spread {I : Session → Prop} (h : ∀ r, Keeps I (enroll r) fun _ => True)
    (fuel : Nat) : ∀ (seen : List Ref) (r : Ref), Keeps I (spread fuel seen r) fun _ => True := by
  induction fuel with
  | zero => exact fun _ _ => keeps_pure trivial
  | succ fuel ih =>
    intro seen r
    refine (still_entry r).keeps.bind fun e _ => keeps_foldlM trivial fun seen _ l _ => ?_
    refine Keeps.bind (P := fun _ => True)
      ((still_entry r).keeps.bind fun _ _ => keeps_pure trivial) fun rs _ => ?_
    refine (keeps_filterM fun x _ => (keeps_isMember x).bind fun _ _ => keeps_pure trivial).bind
      fun rs _ => ?_
    exact keeps_foldlM trivial fun seen _ x _ => (h x).bind fun _ _ => ih seen x

omit hI in
theorem keeps_add {I : Session → Prop} (h : ∀ r, Keeps I (enroll r) fun _ => True) (r : Ref) :
    Keeps I (add r) fun _ => True := by
  refine (still_entry r).keeps.bind fun e _ => keeps_ite (fun _ => keeps_throw _) fun _ => ?_
  refine (h r).bind fun _ _ => keeps_get.true.bind fun _ _ => ?_
  exact (keeps_spread h _ _ r).bind fun _ _ => keeps_pure trivial

theorem keeps_cascade (owner r : Ref) : Keeps I (cascade owner r) fun _ => True := by
  refine (keeps_isMember owner).bind fun _ _ => (keeps_isMember r).bind fun _ _ => ?_
  exact keeps_ite (fun _ => keeps_add (keeps_enroll hI) r) fun _ => keeps_pure trivial

/-! ## One side of a link -/

theorem keeps_markKept (l : Link) (r : Ref) : Keeps I (markKept l r) fun _ => True :=
  keeps_modifyEntry hI fun _ he _ =>
    ⟨{ he with lost := fun l hl => he.lost l (List.mem_filter.1 hl).1 },
      rfl, rfl, rfl, rfl, rfl, rfl⟩

theorem keeps_markLost {l : Link} (hl : l.owns = false) (r : Ref) :
    Keeps I (markLost l r) fun _ => True := by
  unfold markLost
  simp only [hl, Bool.false_and, Bool.false_eq_true, if_false]
  refine keeps_modifyEntry hI fun e he _ => ⟨{ he with lost := ?_ }, rfl, rfl, rfl, rfl, rfl, rfl⟩
  intro l' hl'
  rcases List.mem_cons.1 hl' with rfl | hl'
  · exact hl
  · exact he.lost l' (List.mem_filter.1 hl').1

include hp

/-- A link is given what follows from what is known of it. -/
theorem keeps_setLink {r : Ref} {l : Link} (hl : c.Has r l) {g : Entry → LinkState}
    (hg : ∀ e, (∀ x ∈ (e.linkState l.name).refs, x.model = l.target) →
      ∀ x ∈ (g e).refs, x.model = l.target) :
    Keeps I (modifyEntry r fun e => e.setLink l.name (g e)) fun _ => True := by
  refine keeps_modifyEntry hI fun e he href =>
    ⟨he.setLink fun l' hl' => ?_, rfl, rfl, rfl, rfl, rfl, rfl⟩
  subst href
  have hmem := he.mem_links hp hl
  obtain rfl := Option.some.inj (hl'.symm.trans (hp.link?_eq he.model hmem))
  exact hg _ (he.model_of_refs hp hmem)

theorem keeps_push {owner r : Ref} {l : Link} (h : c.Joins owner l r) :
    Keeps I (push owner l r) fun _ => True := by
  refine Keeps.bind (keeps_setLink hI hp h.1 fun e hst x hx => ?_) fun _ _ => keeps_markKept hI l r
  generalize e.linkState l.name = st at hst hx
  cases st with
  | read before now =>
    simp only [LinkState.refs, List.mem_append, List.mem_singleton] at hx hst
    rcases hx with hx | hx | rfl
    · exact hst x (Or.inl hx)
    · exact hst x (Or.inr hx)
    · exact h.2
  | unread added removed =>
    dsimp only at hx
    split at hx <;> simp only [LinkState.refs, List.mem_append, List.mem_singleton] at hx hst
    · rcases hx with hx | hx
      · exact hst x (Or.inl hx)
      · exact hst x (Or.inr (List.mem_of_mem_erase hx))
    · rcases hx with (hx | rfl) | hx
      · exact hst x (Or.inl hx)
      · exact h.2
      · exact hst x (Or.inr hx)

theorem keeps_pull {owner r : Ref} {l : Link} (h : c.Joins owner l r) :
    Keeps I (pull owner l r) fun _ => True := by
  refine Keeps.bind (keeps_setLink hI hp h.1 fun e hst x hx => ?_) fun _ _ =>
    keeps_markLost hI (h.1.owns hp) r
  generalize e.linkState l.name = st at hst hx
  cases st with
  | read before now =>
    simp only [LinkState.refs, List.mem_append] at hx hst
    rcases hx with hx | hx
    · exact hst x (Or.inl hx)
    · exact hst x (Or.inr (List.mem_of_mem_erase hx))
  | unread added removed =>
    dsimp only at hx
    split at hx
    · simp only [LinkState.refs, List.mem_append] at hx hst
      rcases hx with hx | hx
      · exact hst x (Or.inl (List.mem_of_mem_erase hx))
      · exact hst x (Or.inr hx)
    · split at hx <;> simp only [LinkState.refs, List.mem_append, List.mem_singleton] at hx hst
      · exact hst x hx
      · rcases hx with hx | hx | rfl
        · exact hst x (Or.inl hx)
        · exact hst x (Or.inr hx)
        · exact h.2

include hD

theorem keeps_readLink {r : Ref} {l : Link} (hl : c.Has r l) :
    Keeps I (readLink c r l) fun st => ∀ x ∈ st.refs, x.model = l.target := by
  refine Reads.keeps (fun s => reads_readLink hI.toReading hp hD hl) ?_
  rintro s t st - ht ⟨e, he, hl, rfl, -⟩
  exact ((hI.drafts ht).draft e (Session.known?_mem he).1).model_of_refs hp hl

/-- What a link to one is known to lead to is a record of its target. -/
theorem keeps_peek {r : Ref} {l : Link} (hl : c.Has r l) :
    Keeps I (peek c r l) fun o => ∀ xs, o = some xs → ∀ x ∈ xs, x.model = l.target := by
  intro s hs
  unfold peek
  rw [ends_bind]
  refine (reads_entry r hs).imp ?_ fun _ _ h => h.1
  rintro e t ⟨-, -, rfl, he⟩
  obtain ⟨hmem, rfl⟩ := Session.known?_mem he
  have hdraft := (hI.drafts hs).draft e hmem
  have hl' := hdraft.mem_links hp hl
  obtain ⟨m, hm, hspec⟩ := hp.linkSpec hdraft.model hl'
  split
  · next before now hst =>
    refine ⟨hs, fun xs hxs x hx => ?_⟩
    cases hxs
    refine hdraft.model_of_refs hp hl' x ?_
    rw [hst]
    exact List.mem_append_right _ hx
  · split
    · next column hc =>
      obtain ⟨x, hx, -⟩ := (Option.any_eq_true _ _).1 (hspec.reference column hc).2
      rw [hx, hm]
      dsimp only
      rw [ends_bind]
      refine (reads_columnValue hI.toReading hp hD he (List.mem_of_find?_eq_some hx) hs).imp ?_
        fun _ _ h => h.1
      rintro v t ⟨-, -, rfl, -⟩
      split
      · exact ⟨hs, fun xs hxs => by simp [← Option.some.inj hxs]⟩
      · rw [ends_bind, ends_get]
        refine ⟨hs, fun xs hxs y hy => ?_⟩
        obtain ⟨e', he', rfl⟩ := Option.map_eq_some_iff.1 hxs
        obtain rfl := List.mem_singleton.1 hy
        have hcond := List.find?_some he'
        simp only [Bool.and_eq_true, beq_iff_eq] at hcond
        have hdraft' := (hI.drafts hs).draft e' (List.mem_of_find?_eq_some he')
        rw [hdraft'.name, Catalog.isAlone_eq hspec.alone hdraft'.model hcond.1.2,
          (Catalog.model?_mem hm).2]
    · rw [ends_bind]
      refine (keeps_readLink hI hp hD hl t hs).imp (fun st u h => ⟨h.1, fun xs hxs x hx => ?_⟩)
        fun _ _ h => h
      cases hxs
      exact h.2 x (LinkState.mem_refs_of_current hx)

theorem keeps_putOne {r : Ref} {l : Link} (hl : c.Has r l) {new : Option Ref}
    (hnew : ∀ x, new = some x → x.model = l.target) : Keeps I (putOne c r l new)
      fun o => ∀ xs, o = some xs → ∀ x ∈ xs, x.model = l.target := by
  refine (keeps_peek hI hp hD hl).bind fun old hold => ?_
  refine Keeps.bind (keeps_setLink hI hp hl fun e hst x hx => ?_) fun _ _ => keeps_pure hold
  have hnew' : ∀ x ∈ new.toList, x.model = l.target := fun x hx => hnew x (by simpa using hx)
  generalize e.linkState l.name = st at hst hx
  cases st with
  | read before now =>
    rcases List.mem_append.1 hx with hx | hx
    · exact hst x (List.mem_append_left _ hx)
    · exact hnew' x hx
  | unread added removed =>
    rcases List.mem_append.1 hx with hx | hx
    · cases old with
      | none => cases hx
      | some xs => exact hold xs rfl x hx
    · exact hnew' x hx

/-! ## The other side of a link -/

theorem keeps_release {other r : Ref} {back : Link} (h : c.Joins other back r) :
    Keeps I (release c other back r) fun _ => True := by
  refine keeps_ite (fun _ => keeps_pull hI hp h) fun _ =>
    (keeps_peek hI hp hD h.1).bind fun now _ => ?_
  have hnone : Keeps I (do let _ ← putOne c other back none) fun _ => True :=
    (keeps_putOne hI hp hD h.1 (by simp)).bind fun _ _ => keeps_pure trivial
  split
  · exact keeps_ite (fun _ => hnone) fun _ => keeps_pure trivial
  · exact keeps_pure trivial
  · exact hnone

theorem keeps_claim {r owner : Ref} {l : Link} (h : c.Joins r l owner) :
    Keeps I (claim c r l owner) fun _ => True := by
  refine (keeps_putOne hI hp hD h.1 ?_).bind fun old hold => ?_
  · rintro x ⟨⟩
    exact h.2
  · split
    · next x back hback =>
      have hx : c.Joins r l x := ⟨h.1, hold [x] rfl x List.mem_cons_self⟩
      exact keeps_ite (fun _ => keeps_pure trivial) fun _ =>
        keeps_release hI hp hD (hx.inverse hp hback)
    · exact keeps_pure trivial

theorem keeps_echoGain {owner r : Ref} {l : Link} (h : c.Joins owner l r) :
    Keeps I (echoGain c owner l r) fun _ => True := by
  unfold echoGain
  split
  · exact keeps_pure trivial
  · next back hback =>
    have hinverse := h.inverse hp hback
    exact keeps_ite (fun _ => keeps_push hI hp hinverse) fun _ => keeps_claim hI hp hD hinverse

theorem keeps_echoLoss {owner r : Ref} {l : Link} (h : c.Joins owner l r) :
    Keeps I (echoLoss c owner l r) fun _ => True := by
  unfold echoLoss
  split
  · exact keeps_pure trivial
  · next back hback => exact keeps_release hI hp hD (h.inverse hp hback)

theorem keeps_keep {owner r : Ref} {l : Link} (h : c.Joins owner l r) :
    Keeps I (keep c owner l r) fun _ => True :=
  (keeps_markKept hI l r).bind fun _ _ => keeps_echoGain hI hp hD h

theorem keeps_lose {owner r : Ref} {l : Link} (h : c.Joins owner l r) :
    Keeps I (lose c owner l r) fun _ => True :=
  (keeps_markLost hI (h.1.owns hp) r).bind fun _ _ => keeps_echoLoss hI hp hD h

/-! ## Giving something to a link -/

theorem keeps_setOne {r : Ref} {l : Link} (hl : c.Has r l) {new : Option Ref}
    (hnew : ∀ x, new = some x → x.model = l.target) :
    Keeps I (setOne c r l new) fun _ => True := by
  refine (keeps_putOne hI hp hD hl hnew).bind fun old hold =>
    keeps_ite (fun _ => keeps_pure trivial) fun _ => ?_
  refine (keeps_option_forM fun x _ => keeps_cascade hI r x).bind fun _ _ => ?_
  refine (keeps_forM fun x hx => ?_).bind fun _ _ => ?_
  · cases old with
    | none => cases hx
    | some xs => exact keeps_lose hI hp hD ⟨hl, hold xs rfl x hx⟩
  · exact keeps_option_forM fun x hx => keeps_keep hI hp hD ⟨hl, hnew x hx⟩

theorem keeps_gain {owner r : Ref} {l : Link} (h : c.Joins owner l r) :
    Keeps I (gain c owner l r) fun _ => True :=
  (keeps_cascade hI owner r).bind fun _ _ => keeps_keep hI hp hD h

theorem keeps_addTo {owner r : Ref} {l : Link} (h : c.Joins owner l r) :
    Keeps I (addTo c owner l r) fun _ => True := by
  refine (keeps_readLink hI hp hD h.1).bind fun _ _ => ?_
  refine Keeps.bind (keeps_setLink hI hp h.1 fun e hst x hx => ?_) fun _ _ => keeps_gain hI hp hD h
  generalize e.linkState l.name = st at hst hx
  cases st with
  | read before now =>
    simp only [LinkState.refs, List.mem_append, List.mem_singleton] at hx hst
    rcases hx with hx | hx | rfl
    · exact hst x (Or.inl hx)
    · exact hst x (Or.inr hx)
    · exact h.2
  | unread added removed => exact hst x hx

theorem keeps_setMany {owner : Ref} {l : Link} (hl : c.Has owner l) {rs : List Ref}
    (hrs : ∀ x ∈ rs, x.model = l.target) :
    Keeps I (setMany c owner l rs) fun _ => True := by
  refine (keeps_readLink hI hp hD hl).bind fun st hst => ?_
  have hbefore : ∀ before, (∀ x ∈ before.getD [], x.model = l.target) →
      Keeps I (modifyEntry owner fun e => e.setLink l.name (.read before rs))
        fun _ => True := by
    intro before hb
    refine keeps_setLink hI hp hl (g := fun _ => .read before rs) fun _ _ x hx => ?_
    rcases List.mem_append.1 hx with hx | hx
    · exact hb x hx
    · exact hrs x hx
  have hold : ∀ x ∈ st.current, x.model = l.target :=
    fun x hx => hst x (LinkState.mem_refs_of_current hx)
  refine (hbefore _ ?_).bind fun _ _ => ?_
  · cases st with
    | read before now => exact fun x hx => hst x (List.mem_append_left _ hx)
    | unread added removed => exact hold
  · refine (keeps_forM fun x hx => ?_).bind fun _ _ => keeps_forM fun x hx => ?_
    · exact keeps_gain hI hp hD ⟨hl, hrs x (List.mem_filter.1 hx).1⟩
    · exact keeps_lose hI hp hD ⟨hl, hold x (List.mem_eraseDups.1 (List.mem_filter.1 hx).1)⟩

end Act

end Hypermedia
