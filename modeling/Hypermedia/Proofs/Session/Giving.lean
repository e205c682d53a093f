import Hypermedia.Proofs.Session.Carrying

/-!
# Giving something to drafts

A field of a record suits its model if it gives records of the target to a link and something
to a column only where clients may, under one of some names (`Catalog.Suits`). Giving such
fields to a record, building a record from them and adding it to its owner leave a session of
drafts one, and keep every other property of sessions that stays when a new record is given a
value under one of these names (`Catalog.Drafting`).
-/

namespace Hypermedia

/-- The records that something given has are records of a model. -/
def Given.AllOf (target : String) : Given Ref → Prop
  | .value _ => True
  | .record r => r.model = target
  | .records rs => ∀ r ∈ rs, r.model = target

/-- What a new record of a model has: the identity where rows are discriminated. -/
def Model.kindValues (m : Model) : Row :=
  match m.discriminator, m.identity with
  | some column, some identity => [(column, .text identity)]
  | _, _ => []

/-- A field that may be given to records of a model; to columns only under some names. -/
structure Catalog.Suits (m : Model) (N : String → Prop) (f : String × Given Ref) : Prop where
  link : ∀ l, m.link? f.1 = some l → f.2.AllOf l.target
  column : m.link? f.1 = none → ∀ x, m.column? f.1 = some x → m.isOwn x.column = true ∧ N f.1

theorem Catalog.Suits.imp {m : Model} {N N' : String → Prop} {f : String × Given Ref}
    (h : Suits m N f) (hN : ∀ name, N name → N' name) : Suits m N' f :=
  ⟨h.link, fun hl x hx => (h.column hl x hx).imp_right (hN f.1)⟩

/-- A new record of a model as it is built. -/
def Entry.built (m : Model) (number : Nat) : Entry :=
  { ref := { number, model := m.name }, model := m, phase := .fresh, key := []
    values := m.kindValues, links := [], isDoomed := false, lost := [] }

/-- No record that is known by the reference is stored. -/
def Session.IsNew (r : Ref) (s : Session) : Prop :=
  ∀ e ∈ s.entries, e.ref = r → e.isStored = false

/-- A property of sessions of drafts that stays when links are read and given something, when
a new record is built and given values under names that are allowed for its model, and when
records are forgotten. -/
structure Catalog.Drafting (c : Catalog) (D : Database) (N : Model → String → Prop)
    (I : Session → Prop) : Prop extends c.Editing D I where
  build : ∀ {s m}, I s → m ∈ c.models → m.isBuilt = true →
    I { s with entries := s.entries ++ [.built m s.next], next := s.next + 1 }
  give : ∀ {s r m name v}, I s → c.model? r.model = some m → s.IsNew r → N m name →
    Accepts m name v → I (s.modify r fun e => e.setValue name v)
  filter : ∀ {s}, I s → ∀ p, I { s with entries := s.entries.filter p }

namespace Catalog

variable {c : Catalog} {D : Database} {H : Ref → Prop} {s : Session}

/-- A draft that is given a value that its model accepts stays one. -/
theorem Draft.setValue {e : Entry} (he : c.Draft D e) {name : String} {v : Value}
    (hv : Accepts e.model name v) : c.Draft D (e.setValue name v) :=
  { he with
    kind := by
      intro hstored k hk
      have hsome := he.kind hstored k hk
      rw [Entry.given?_setValue]
      split
      · rfl
      · exact hsome
    value := by
      intro f hf
      rcases List.mem_append.1 hf with hf | hf
      · exact he.value f (List.mem_filter.1 hf).1
      · exact List.mem_singleton.1 hf ▸ hv }

/-- A record that is built for a model. -/
theorem Plain.draft_fresh (hp : c.Plain) {m : Model} (hm : m ∈ c.models) (hb : m.isBuilt = true)
    (number : Nat) : c.Draft D (.built m number) where
  model := hm
  name := rfl
  built := hb
  phase := Or.inl rfl
  stored := fun h => nomatch h
  unstored := fun _ => rfl
  kind := by
    intro _ k hk
    have hkind : m.discriminator = some k := hk
    obtain ⟨i, hi⟩ := Option.isSome_iff_exists.1 (hp.identity m hm hb (by simp [hkind])).1
    simp_all [Entry.built, Model.kindValues, Entry.given?, Fields.get?]
  value := by
    simp only [Entry.built, Model.kindValues]
    split
    · next k i hk hi =>
      obtain ⟨x, hx, -⟩ := (Option.any_eq_true _ _).1 (hp.kind m hm k hk)
      simp only [List.forall_mem_singleton]
      exact ⟨x, hx, Or.inr ⟨hk, i, hi, rfl⟩⟩
    · simp
  link := by simp [Entry.built]
  lost := by simp [Entry.built]

/-- A session of drafts stays one when one of them is given what its model accepts. -/
theorem Edited.give (hp : c.Plain) (h : c.Edited D H s) {r : Ref} {m : Model}
    (hm : c.model? r.model = some m) {name : String} {v : Value} (hv : Accepts m name v) :
    c.Edited D H (s.modify r fun e => e.setValue name v) :=
  h.modify fun e he href => by
    have hmodel : e.model = m := Option.some.inj ((he.model?_eq hp).symm.trans (href ▸ hm))
    exact ⟨he.setValue (hmodel ▸ hv), rfl, rfl, rfl, rfl, rfl⟩

theorem Edited.drafting (hp : c.Plain) (hD : c.Sound D) (N : Model → String → Prop) :
    c.Drafting D N (c.Edited D H) where
  toEditing := Edited.editing hp hD
  build := fun h hm hb => h.append (hp.draft_fresh hm hb _) rfl rfl fun _ _ _ h => nomatch h
  give := fun h hm _ _ hv => h.give hp hm hv
  filter := fun h p => h.filter p

/-- Giving values to columns keeps what records carry if it is kept for each record that is
given something. -/
theorem Carrying.give (hp : c.Plain) {n : Nat} {Q : Entry → Prop} (h : c.Carrying D n Q s) {r : Ref}
    {m : Model} (hm : c.model? r.model = some m) {name : String} {v : Value}
    (hv : Accepts m name v)
    (hQ : ∀ e ∈ s.entries, e.ref = r → e.model = m → Q (e.setValue name v)) :
    c.Carrying D n Q (s.modify r fun e => e.setValue name v) :=
  h.modify fun e he href => by
    have hdraft := h.draft e he
    have hmodel : e.model = m := Option.some.inj ((hdraft.model?_eq hp).symm.trans (href ▸ hm))
    exact ⟨hdraft.setValue (hmodel ▸ hv), rfl, rfl, rfl, rfl, hQ e he href hmodel⟩

theorem Carrying.drafting (hp : c.Plain) (hD : c.Sound D) {n : Nat} {Q : Entry → Prop}
    (hQ : Entry.Stable n Q) {N : Model → String → Prop}
    (hbuild : ∀ m ∈ c.models, ∀ number, n ≤ number → Q (.built m number))
    (hgive : ∀ e name v, Q e → e.isStored = false → N e.model name → Q (e.setValue name v)) :
    c.Drafting D N (c.Carrying D n Q) where
  toEditing := Carrying.editing hp hD hQ
  build := fun h hm hb => h.append
    (h.toDrafts.append (hp.draft_fresh hm hb _) rfl fun _ _ _ h => nomatch h)
    (hbuild _ hm _ h.since)
  give := fun h hm hnew hN hv => h.give hp hm hv fun e he href hmodel =>
    hgive e _ _ (h.carried e he) (hnew e he href) (hmodel ▸ hN)
  filter := fun h p => h.filter p

theorem Drafting.and {N : Model → String → Prop} {I J : Session → Prop} (hI : c.Drafting D N I)
    (hJ : c.Drafting D N J) : c.Drafting D N fun s => I s ∧ J s where
  toEditing := hI.toEditing.and hJ.toEditing
  build := fun h hm hb => ⟨hI.build h.1 hm hb, hJ.build h.2 hm hb⟩
  give := fun h hm hnew hN hv => ⟨hI.give h.1 hm hnew hN hv, hJ.give h.2 hm hnew hN hv⟩
  filter := fun h p => ⟨hI.filter h.1 p, hJ.filter h.2 p⟩

/-- A record of a later number that is new is not known as a stored one. -/
theorem stable_isNew {r : Ref} {n : Nat} (h : r.number < n) :
    Entry.Stable n fun e => e.ref = r → e.isStored = false where
  alike := fun hnew href _ hst _ _ h => hst ▸ hnew (href ▸ h)
  known := fun hn _ _ href => absurd (href ▸ hn) (by omega)

end Catalog

/-- A change of the last record. -/
theorem Session.modify_receive {s : Session} (h : ∀ e ∈ s.entries, e.ref.number < s.next)
    (m : Model) (p : Phase) (key : List Value) (f : Entry → Entry) :
    (s.receive m p key).1.modify (s.receive m p key).2 f =
      { s with
        entries := s.entries ++
          [f { ref := { number := s.next, model := m.name }, model := m, phase := p, key
               values := [], links := [], isDoomed := false, lost := [] }]
        next := s.next + 1 } := by
  have hother : ∀ e ∈ s.entries, e.ref ≠ { number := s.next, model := m.name } := by
    rintro e he heq
    have hlt := h e he
    rw [heq] at hlt
    exact Nat.lt_irrefl _ hlt
  simp only [Session.receive, Session.modify, List.map_append, List.map_cons, List.map_nil,
    beq_self_eq_true, if_true]
  congr 2
  refine (List.map_congr_left fun e he => ?_).trans (List.map_id _)
  simp [hother e he]

namespace Act

variable {c : Catalog} {D : Database} {I : Session → Prop} (hI : c.Editing D I) (hp : c.Plain)
  (hD : c.Sound D)

include hI hp hD

theorem keeps_assignMany {r : Ref} {l : Link} (hl : c.Has r l) {x : Given Ref}
    (hx : x.AllOf l.target) : Keeps I (assignMany c r l x) fun _ => True := by
  have hsettle : Keeps I (settleLink c r l) fun _ => True :=
    Reads.keeps (fun _ => reads_settleLink hI.toReading r l) fun _ _ _ _ _ _ => trivial
  have hnone : Keeps I (do settleLink c r l; setMany c r l []) fun _ => True :=
    hsettle.bind fun _ _ => keeps_setMany hI hp hD hl (by simp)
  unfold assignMany
  split
  case h_1 rs => exact hsettle.bind fun _ _ => keeps_setMany hI hp hD hl hx
  case h_2 | h_3 | h_4 => exact hnone
  all_goals exact keeps_throw _

theorem keeps_assignOne {r : Ref} {l : Link} (hl : c.Has r l) {x : Given Ref}
    (hx : x.AllOf l.target) : Keeps I (assignOne c r l x) fun _ => True := by
  unfold assignOne
  split
  · refine keeps_setOne hI hp hD hl ?_
    rintro y ⟨⟩
    exact hx
  · exact keeps_setOne hI hp hD hl (by simp)
  · exact keeps_throw _
  · exact keeps_throw _

/-- Giving a field to a record keeps what giving its value to a column keeps. -/
theorem keeps_assignField {r : Ref} {m : Model} (hm : c.model? r.model = some m)
    {N : String → Prop} {f : String × Given Ref} (hf : Catalog.Suits m N f)
    (hgive : ∀ s v, I s → N f.1 → Catalog.Accepts m f.1 v →
      I (s.modify r fun e => e.setValue f.1 v)) :
    Keeps I (assignField c r f.1 f.2) fun _ => True := by
  refine (keeps_entry hI r).bind fun e ⟨he, href⟩ => ?_
  have hmodel : e.model = m := Option.some.inj ((he.model?_eq hp).symm.trans (href ▸ hm))
  rw [hmodel]
  cases hl : m.link? f.1 with
  | some l =>
    have hhas : c.Has r l := ⟨m, hm, List.mem_of_find?_eq_some hl⟩
    exact keeps_ite (fun _ => keeps_assignMany hI hp hD hhas (hf.link l hl))
      fun _ => keeps_assignOne hI hp hD hhas (hf.link l hl)
  | none =>
    cases hx : m.column? f.1 with
    | none => exact keeps_pure trivial
    | some x =>
      obtain ⟨hown, hname⟩ := hf.column hl x hx
      refine (keeps_ofExcept fun _ => ColumnType.holds_of_parse).bind fun v hv => ?_
      exact fun s hs => ⟨hgive s v hs hname ⟨x, hx, Or.inl ⟨hown, hv⟩⟩, trivial⟩

theorem keeps_assign {r : Ref} {m : Model} (hm : c.model? r.model = some m) {N : String → Prop}
    {fields : List (String × Given Ref)} (hf : ∀ f ∈ fields, Catalog.Suits m N f)
    (hgive : ∀ s name v, I s → N name → Catalog.Accepts m name v →
      I (s.modify r fun e => e.setValue name v)) :
    Keeps I (assign c r fields) fun _ => True :=
  keeps_forM fun f h => keeps_assignField hI hp hD hm (hf f h) fun s v => hgive s f.1 v

omit hI hp hD in
/-- A record is built by giving the fields to a new one. -/
theorem ends_build {t : ResourceType} {m : Model} (hm : t.model.bind c.ofClass? = some m)
    {s : Session} (hs : ∀ e ∈ s.entries, e.ref.number < s.next)
    {fields : List (String × Given Ref)} {Q : Ref → Session → Prop} {E : Fault → Session → Prop}
    (h : Ends (assign c { number := s.next, model := m.name } fields)
      { s with entries := s.entries ++ [.built m s.next], next := s.next + 1 }
      (fun _ t => Q { number := s.next, model := m.name } t) E) :
    Ends (build c t fields) s Q E := by
  have hassign : ∀ u, Ends (assign c { number := s.next, model := m.name } fields) u
      (fun _ t => Q { number := s.next, model := m.name } t) E → Ends (do
        assign c { number := s.next, model := m.name } fields
        pure ({ number := s.next, model := m.name } : Ref)) u Q E := by
    intro u hu
    rw [ends_bind]
    exact hu
  unfold build modelOf
  rw [hm]
  simp only [pure_bind, ends_bind, ends_get, ends_set]
  unfold Entry.built Model.kindValues at h
  cases hk : m.discriminator with
  | none =>
    simp only [hk] at h ⊢
    exact hassign _ h
  | some column =>
    cases hi : m.identity with
    | none =>
      simp only [hk, hi] at h ⊢
      exact hassign _ h
    | some i =>
      simp only [hk, hi] at h ⊢
      rw [ends_bind, ends_modifyEntry, Session.modify_receive hs]
      exact hassign _ h

omit hI in
/-- A new record is one of the model of its type. -/
theorem keeps_build {N : Model → String → Prop} (hI : c.Drafting D N I) {t : ResourceType}
    {m : Model} (hm : t.model.bind c.ofClass? = some m) (hb : m.isBuilt = true)
    {fields : List (String × Given Ref)} (hf : ∀ f ∈ fields, Catalog.Suits m (N m) f) :
    Keeps I (build c t fields) fun r => r.model = m.name := by
  have hmem := ofClass?_mem hm
  intro s hs
  have hnumbers := (hI.drafts hs).numbers
  have hbuilt := hI.build hs hmem hb
  refine ends_build hm hnumbers ?_
  -- The record is new as long as it is given its fields.
  let r : Ref := { number := s.next, model := m.name }
  have hstable := Catalog.stable_isNew (r := r) (Nat.lt_succ_self _)
  have hJ := hI.toEditing.and (Catalog.Carrying.editing hp hD hstable)
  have hnew : c.Carrying D (s.next + 1) (fun e => e.ref = r → e.isStored = false)
      { s with entries := s.entries ++ [.built m s.next], next := s.next + 1 } := by
    refine ⟨hI.drafts hbuilt, Nat.le_refl _, fun e he href => ?_⟩
    rcases List.mem_append.1 he with he | he
    · have hlt := hnumbers e he
      rw [href] at hlt
      exact absurd hlt (Nat.lt_irrefl _)
    · rw [List.mem_singleton.1 he]
      rfl
  refine ((keeps_assign hJ hp hD (hp.model?_eq hmem) hf fun u name v hu hN hv => ?_) _
    ⟨hbuilt, hnew⟩).imp (fun _ _ h => ⟨h.1.1, rfl⟩) fun _ _ h => h.1
  refine ⟨hI.give hu.1 (hp.model?_eq hmem) hu.2.carried hN hv,
    hu.2.give hp (hp.model?_eq hmem) hv ?_⟩
  exact fun e he _ _ href => hu.2.carried e he href

/-- Adding a record to a link leaves a session of drafts one. -/
theorem keeps_addLinked {owner r : Ref} {l : Link} (h : c.Joins owner l r) :
    Keeps I (addLinked c owner l r) fun _ => True := by
  refine keeps_ite (fun _ => ?_) fun _ => keeps_setOne hI hp hD h.1 ?_
  · refine (Reads.keeps (fun _ => reads_settleLink hI.toReading owner l)
      fun _ _ _ _ _ _ => trivial).bind fun _ _ => keeps_addTo hI hp hD h
  · rintro x ⟨⟩
    exact h.2

theorem keeps_attach {owner r : Ref} {rel : Relationship} {m : Model} {l : Link}
    (hm : c.model? owner.model = some m) (hl : m.link? rel.name = some l)
    (hr : r.model = l.target) (hinverse : rel.inverse = l.inverse) :
    Keeps I (attach c owner rel r) fun _ => True := by
  have hjoins : c.Joins owner l r := ⟨⟨m, hm, List.mem_of_find?_eq_some hl⟩, hr⟩
  unfold attach
  rw [hinverse]
  split
  · next name hname =>
    refine (keeps_entry hI r).bind fun e ⟨he, href⟩ => ?_
    split
    · next back hback =>
      refine keeps_addLinked hI hp hD (hjoins.inverse hp ?_)
      have htarget : c.model? l.target = some e.model := hr ▸ href ▸ he.model?_eq hp
      simp [inverseOf, htarget, hname, hback]
    · exact keeps_throw _
  · refine (keeps_entry hI owner).bind fun e ⟨he, href⟩ => ?_
    have hmodel : e.model = m := Option.some.inj ((he.model?_eq hp).symm.trans (href ▸ hm))
    rw [hmodel, hl]
    exact keeps_ite (fun _ => keeps_addLinked hI hp hD hjoins) fun _ => keeps_throw _

end Act

end Hypermedia
