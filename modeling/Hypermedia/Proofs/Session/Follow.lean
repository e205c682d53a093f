import Hypermedia.Proofs.Session.Reading

/-!
# Following links

What a record has in its columns and what its links lead to are read without a fault, if the
session knows the record. A link leads to records of its target; in the database they are
those whose rows refer to the record, or the one that its row refers to (`Catalog.Linked`).
-/

namespace Hypermedia

/-- The session has read a link of a record, which leads to these records. -/
def Session.Leads (s : Session) (r : Ref) (l : Link) (xs : List Ref) : Prop :=
  ∃ e, s.known? r = some e ∧ l ∈ e.model.links ∧ ∃ before, e.linkState l.name = .read before xs

namespace Catalog

variable {c : Catalog} {D : Database} {H : Ref → Prop} {s : Session}

/-- All records that are known of a link of a draft are records of its target. -/
theorem Draft.model_of_refs (hp : c.Plain) {e : Entry} (he : c.Draft D e) {l : Link}
    (hl : l ∈ e.model.links) : ∀ x ∈ (e.linkState l.name).refs, x.model = l.target := by
  rcases e.linkState_cases l.name with hmem | hnil
  · exact he.link _ hmem l (hp.link?_eq he.model hl)
  · simp [hnil]

/-- A draft whose link was given something that fits stays one. -/
theorem Draft.setLink {e : Entry} (he : c.Draft D e) {name : String} {st : LinkState}
    (hst : ∀ l, e.model.link? name = some l → ∀ x ∈ st.refs, x.model = l.target) :
    c.Draft D (e.setLink name st) :=
  { he with
    link := by
      intro f hf l hl
      rcases List.mem_append.1 hf with hf | hf
      · exact he.link f (List.mem_filter.1 hf).1 l hl
      · rw [List.mem_singleton.1 hf] at hl ⊢
        exact hst l hl }

/-- The records of a session of drafts under a number of a table without other models. -/
theorem Drafts.model_of_holds (h : c.Drafts D s) {m : Model} (ha : c.isAlone m = true)
    {x : Ref} {k : Int} (hx : s.Holds x m.rootTable k) : x.model = m.name := by
  obtain ⟨e, he, rfl, -, hroot, -⟩ := hx
  have hdraft := h.draft e he
  exact hdraft.name.trans (isAlone_eq ha hdraft.model hroot)

/-- Reading keeps a session of drafts one. -/
theorem Drafts.reading (hp : c.Plain) (hD : c.Sound D) : c.Reading D (c.Drafts D) where
  drafts := id
  receive := fun hs h hn hnew => hs.receive hp hD h hn hnew
  readLink := by
    intro s₀ s e₀ e l added removed stored hs₀ hseen he₀ href₀ hmodel _ hst hs he hl hlinked
    refine hs.modify fun e' hmem' href => ?_
    have he' := hs.draft e' hmem'
    refine ⟨he'.setLink fun l' hl' x hx => ?_, rfl, rfl, rfl, rfl⟩
    have hdraft := hs.draft e he
    have hsame := he'.model_eq hp hdraft href
    obtain ⟨m, hm, hspec⟩ := hp.linkSpec hdraft.model hl
    obtain rfl : l' = l :=
      Option.some.inj (hl'.symm.trans (hsame ▸ hp.link?_eq hdraft.model hl))
    have hstored : ∀ y ∈ stored, y.model = l'.target := by
      intro y hy
      obtain ⟨k, hk⟩ := hlinked.target hm hy
      exact (hs.model_of_holds hspec.alone hk).trans (model?_mem hm).2
    have hadded : ∀ y ∈ added, y.model = l'.target := by
      intro y hy
      refine (hs₀.draft e₀ he₀).model_of_refs hp (hmodel ▸ hl) y ?_
      rw [hst]
      exact List.mem_append_left _ hy
    simp only [LinkState.refs, Option.getD_some, List.mem_append, List.mem_filter] at hx
    rcases hx with hx | ⟨hx | hx, -⟩
    · exact hstored x hx
    · exact hstored x hx
    · exact hadded x hx

theorem Edited.reading (hp : c.Plain) (hD : c.Sound D) : c.Reading D (c.Edited D H) where
  drafts := Edited.toDrafts
  receive := by
    intro s m n row hs h hn hnew
    have hdrafts := hs.toDrafts.receive hp hD h hn hnew
    refine ⟨hdrafts, fun e he => ?_, fun e he hH => ?_,
      fun r hr => Nat.lt_succ_of_lt (hs.before r hr)⟩ <;>
      rcases List.mem_append.1 he with he | he
    · exact hs.kept e he
    · rw [List.mem_singleton.1 he]
    · exact hs.held e he hH
    · rw [List.mem_singleton.1 he]
      rfl
  readLink := by
    intro s₀ s e₀ e l added removed stored hs₀ hseen he₀ href₀ hmodel hphase hst hs he hl hlinked
    refine ⟨(Drafts.reading hp hD).readLink hs₀.toDrafts hseen he₀ href₀ hmodel hphase hst
      hs.toDrafts he hl hlinked, fun e' he' => ?_, fun e' he' hH => ?_, hs.before⟩ <;>
      obtain ⟨e₁, he₁, ⟨-, rfl⟩ | ⟨-, rfl⟩⟩ := Session.mem_modify he'
    · exact hs.kept e₁ he₁
    · exact hs.kept _ he₁
    · exact hs.held e₁ he₁ hH
    · exact hs.held _ he₁ hH

/-- Reading makes no record known under a reference that may be held and is not known. -/
theorem Edited.reading_unknown (hp : c.Plain) (hD : c.Sound D) {r : Ref} (hr : H r) :
    c.Reading D fun s => c.Edited D H s ∧ ∀ e ∈ s.entries, e.ref ≠ r where
  drafts := fun h => h.1.toDrafts
  receive := by
    intro s m n row hs h hn hnew
    refine ⟨(Edited.reading hp hD).receive hs.1 h hn hnew, fun e he => ?_⟩
    rcases List.mem_append.1 he with he | he
    · exact hs.2 e he
    · rintro rfl
      have hlt := hs.1.before _ hr
      rw [List.mem_singleton.1 he] at hlt
      exact Nat.lt_irrefl _ hlt
  readLink := by
    intro s₀ s e₀ e l added removed stored hs₀ hseen he₀ href₀ hmodel hphase hst hs he hl hlinked
    refine ⟨(Edited.reading hp hD).readLink hs₀.1 hseen he₀ href₀ hmodel hphase hst hs.1 he hl
      hlinked, fun e' he' => ?_⟩
    obtain ⟨e₁, he₁, ⟨-, rfl⟩ | ⟨-, rfl⟩⟩ := Session.mem_modify he'
    · exact hs.2 e₁ he₁
    · exact hs.2 _ he₁

end Catalog

/-- What a link leads to, as it is given to those who ask. -/
def Link.related (l : Link) (xs : List Ref) : Related Ref :=
  if l.isList then .many xs else (xs.head?.map Related.one).getD .nothing

namespace Act

variable {c : Catalog} {D : Database} {H : Ref → Prop} {I : Session → Prop} {s : Session}
  (hI : c.Reading D I) (hp : c.Plain) (hD : c.Sound D)

include hI hp hD

/-- What a record has in a column is read without a fault. -/
theorem reads_columnValue {r : Ref} {e : Entry} (he : s.known? r = some e) {x : MappedColumn}
    (hx : x ∈ e.model.columns) : Reads I (columnValue r x) s
    (fun t v => t = s ∧ v = e.cell D x.column.name) False := by
  refine ((reads_entry r).imp (fun _ _ _ _ h => h) fun h => by simp [he] at h).bind ?_
  rintro e' _ hs - ⟨rfl, he'⟩
  obtain rfl := Option.some.inj (he.symm.trans he')
  have hdraft := (hI.drafts hs).draft e (Session.known?_mem he).1
  unfold Entry.cell
  cases hg : e.given? x.column.name with
  | some v => exact reads_pure fun _ => ⟨rfl, rfl⟩
  | none =>
    dsimp only
    cases hstored : e.isStored with
    | false => exact reads_pure fun _ => ⟨rfl, by simp [Entry.row?, hdraft.unstored hstored]⟩
    | true =>
      obtain ⟨k, row, hk, hrow, -⟩ := hdraft.stored hstored
      rw [if_pos rfl]
      unfold storedValue
      rw [hp.columns _ hdraft.model x hx]
      refine (reads_row? hI hp hD hdraft.model e.key).bind ?_
      rintro o _ - - ⟨rfl, t, ht, rfl⟩
      rw [hk, hD.find? hp ht, hrow]
      exact reads_pure fun _ => ⟨rfl, by simp [Entry.row?_eq_some hk, hrow]⟩

/-- What a record refers to is the record of the row of that number. -/
theorem reads_referred {r : Ref} {e : Entry} (he : s.known? r = some e) {l : Link}
    (hl : l ∈ e.model.links) {column : String} (hc : l.kind = .reference column) :
    Reads I (referred c r l column) s (fun t xs => c.Linked D t e l xs) False := by
  refine ((reads_entry r).imp (fun _ _ _ _ h => h) fun h => by simp [he] at h).bind ?_
  rintro e' _ hs - ⟨rfl, he'⟩
  obtain rfl := Option.some.inj (he.symm.trans he')
  have hdraft := (hI.drafts hs).draft e (Session.known?_mem he).1
  obtain ⟨m, hm, hspec⟩ := hp.linkSpec hdraft.model hl
  have href := (hspec.reference column hc).2
  obtain ⟨x, hx, -⟩ := (Option.any_eq_true _ _).1 href
  have hname : x.column.name = column := by simpa using List.find?_some hx
  have hlinked : ∀ {t : Session} {xs : List Ref}, List.Forall₂
      (fun x row => t.HoldsRow x m.rootTable row) xs (D.linkedRows l m (keyValue e) (e.cell D)) →
        c.Linked D t e l xs := by
    intro t xs hxs m' hm'
    exact Option.some.inj (hm.symm.trans hm') ▸ hxs
  rw [hx, hm]
  refine (reads_columnValue hI hp hD he (List.mem_of_find?_eq_some hx)).bind ?_
  rintro v t - - ⟨rfl, rfl⟩
  rw [hname]
  rcases hdraft.reference_cell hp hD href with hnull | ⟨k, hk, hrow⟩
  · rw [hnull]
    refine reads_pure fun _ => hlinked ?_
    simp [Database.linkedRows, hc, hnull]
  · obtain ⟨row, hrow⟩ := Option.isSome_iff_exists.1 hrow
    rw [hk]
    refine ((reads_find hI hp hD (Catalog.model?_mem hm).1 _).imp (fun _ _ _ _ h => h)
      fun h => ?_).bind fun o t _ _ ho => reads_pure fun _ => hlinked ?_
    · exact absurd ((h.missing hD k rfl).symm.trans hrow) (by simp)
    · have hsome := ho.isSome k row rfl hrow (Catalog.isKind_of_isAlone hspec.alone row)
      obtain ⟨y, rfl⟩ := Option.isSome_iff_exists.1 hsome
      obtain ⟨j, hj, hjk⟩ := ho.holds y rfl
      obtain ⟨-, -, -, hid⟩ := hD.row?_eq_some.1 hrow
      simp only [Database.linkedRows, hc, hk, hrow, Option.toList_some]
      exact .cons ⟨k, hid, hjk k rfl ▸ hj⟩ .nil

/-- What the database links to a record is read without a fault. -/
theorem reads_storedLinks {e : Entry} (he : s.known? e.ref = some e) {l : Link}
    (hl : l ∈ e.model.links) :
    Reads I (storedLinks c e l) s (fun t xs => c.Linked D t e l xs) False := by
  intro hs
  have hdraft := (hI.drafts hs).draft e (Session.known?_mem he).1
  obtain ⟨m, hm, hspec⟩ := hp.linkSpec hdraft.model hl
  revert hs
  change Reads I _ s _ _
  unfold storedLinks
  rw [hm]
  dsimp only
  split
  · next column hc => exact reads_referred hI hp hD he hl hc
  · next column hc =>
    have hmem := (Catalog.model?_mem hm).1
    obtain ⟨t, ht, -⟩ := hD.table hp hmem
    refine ((reads_table hI _).imp (fun _ _ _ _ h => h) fun h => h t ht).bind ?_
    rintro t _ - - ⟨rfl, ht⟩
    -- All rows of the table are those of records of the target.
    have hkind : ∀ rows : List Row, rows.filter (c.isKind m) = rows := fun rows =>
      List.filter_eq_self.2 fun row _ => Catalog.isKind_of_isAlone hspec.alone row
    have hrows : D.linkedRows l m (keyValue e) (e.cell D) =
        m.inKeyOrder (t.rows.filter fun row => Row.get row column == keyValue e) := by
      rw [Database.linkedRows, hc, Database.rowsOf_eq ht]
    rw [filterM_isRowOf hp hmem, hkind, pure_bind, (hspec.members column hc).1]
    have hnew : ∀ row ∈ t.rows.filter fun row => Row.get row column == keyValue e,
        c.NewRow D m row := fun row hrow => newRow_of_mem hD hmem ht (List.mem_filter.1 hrow).1
    refine (reads_recordsOf hI hp hD hnew).bind fun rs u _ _ hrs =>
      reads_pure fun _ m' hm' => ?_
    obtain rfl := Option.some.inj (hm.symm.trans hm')
    rw [hrows]
    exact hrs
  · next table own other hc => exact absurd hc (hspec.pairs table own other)

/-- A link of a known record is read without a fault. -/
theorem reads_readLink {r : Ref} {l : Link} (hl : c.Has r l) : Reads I (readLink c r l) s
    (fun t st => ∃ e, t.known? r = some e ∧ l ∈ e.model.links ∧ e.linkState l.name = st ∧
      ∃ before now, st = .read before now) (s.known? r = none) := by
  refine (reads_entry r).bind ?_
  rintro e t ht - ⟨rfl, he⟩
  obtain ⟨hmem, rfl⟩ := Session.known?_mem he
  have hdraft := (hI.drafts ht).draft e hmem
  have hl := hdraft.mem_links hp hl
  split
  · next before now hst => exact reads_pure fun _ => ⟨e, he, hl, hst, before, now, rfl⟩
  · next added removed hst =>
    rw [if_neg (by rcases hdraft.phase with h | ⟨n, h⟩ | h <;> simp [h])]
    refine ((reads_storedLinks hI hp hD he hl).imp (fun _ _ _ _ h => h) False.elim).bind ?_
    intro stored u hu htu hlinked _
    obtain ⟨e', he', hr', hm', hph', hk', hv'⟩ := htu e hmem
    have hread := hI.readLink ht htu hmem hr'.symm hm'.symm hph'.symm hst hu he' (hm' ▸ hl)
      (hlinked.congr hm' hk' hv')
    rw [hr'] at hread
    simp only [ends_bind, ends_modifyEntry, ends_pure]
    have hknown := hr' ▸ (hI.drafts hu).known?_eq he'
    refine ⟨hread, .setLink u _ _ _, _, Session.known?_modify ?_ hknown, hm' ▸ hl,
      Entry.linkState_setLink _ _ _, _, _, rfl⟩
    exact fun _ => rfl

theorem reads_linked {r : Ref} {l : Link} (hl : c.Has r l) : Reads I (linked c r l) s
    (fun t xs => t.Leads r l xs) (s.known? r = none) := by
  refine (reads_readLink hI hp hD hl).bind ?_
  rintro st t - - ⟨e, he, hl, hst, before, now, rfl⟩
  exact reads_pure fun _ => ⟨e, he, hl, before, hst⟩

/-! ## Reading as a store -/

omit hp hD in
theorem reads_settle : Reads I (settle c) s (fun t _ => t = s) False := by
  unfold settle
  refine reads_get.bind ?_
  rintro _ _ hs - ⟨rfl, rfl⟩
  rw [(hI.drafts hs).eager]
  exact reads_pure fun _ => rfl

omit hp hD in
theorem reads_settleLink (r : Ref) (l : Link) :
    Reads I (settleLink c r l) s (fun t _ => t = s) (s.known? r = none) := by
  refine (reads_entry r).bind ?_
  rintro e _ - - ⟨rfl, -⟩
  split
  · exact (reads_settle hI).imp (fun _ _ _ _ h => h) False.elim
  · exact reads_pure fun _ => rfl

omit hp hD in
/-- The id of a record is its number. -/
theorem reads_identity (r : Ref) : Reads I (identity r) s
    (fun t v => t = s ∧ ∃ e, s.known? r = some e ∧ v = keyValue e) (s.known? r = none) := by
  refine (reads_entry r).bind ?_
  rintro e _ hs - ⟨rfl, he⟩
  have hdraft := (hI.drafts hs).draft e (Session.known?_mem he).1
  have hkey : e.key = [] ∨ ∃ k, e.key = [.int k] := by
    cases h : e.isStored with
    | false => exact Or.inl (hdraft.unstored h)
    | true =>
      obtain ⟨k, -, hk, -⟩ := hdraft.stored h
      exact Or.inr ⟨k, hk⟩
  rcases hkey with hkey | ⟨k, hkey⟩ <;> rw [hkey] <;>
    exact reads_pure fun _ => ⟨rfl, e, he, by simp [keyValue, hkey]⟩

omit hI hp hD in
theorem reads_modelOf (t : ResourceType) : Reads I (modelOf c t) s
    (fun u m => u = s ∧ t.model.bind c.ofClass? = some m) (t.model.bind c.ofClass? = none) := by
  unfold modelOf
  split
  · next m hm => exact reads_pure fun _ => ⟨rfl, hm⟩
  · next hm => exact reads_throw fun _ => hm

omit hI hp hD in
theorem ofClass?_mem {t : ResourceType} {m : Model} (h : t.model.bind c.ofClass? = some m) :
    m ∈ c.models := by
  obtain ⟨k, -, hk⟩ := Option.bind_eq_some_iff.1 h
  exact List.mem_of_find?_eq_some hk

/-- The records of a type are those of the rows of its model. -/
theorem reads_query (t : ResourceType) : Reads I (query c t) s
    (fun u rs => ∃ m, t.model.bind c.ofClass? = some m ∧
      List.Forall₂ (fun r row => u.HoldsRow r m.rootTable row) rs
        (m.inKeyOrder ((D.rowsOf m.rootTable).filter (c.isKind m))))
    (t.model.bind c.ofClass? = none) := by
  refine (reads_modelOf t).bind ?_
  rintro m _ - - ⟨rfl, hm⟩
  refine ((reads_settle hI).imp (fun _ _ _ _ h => h) False.elim).bind ?_
  rintro _ _ - - rfl
  exact (reads_all hI hp hD (ofClass?_mem hm)).imp (fun _ _ _ _ h => ⟨m, hm, h⟩) False.elim

theorem reads_lookup (t : ResourceType) (id : Value) : Reads I (lookup c t id) s
    (fun u o => ∃ m, t.model.bind c.ofClass? = some m ∧
      (o.isSome = true → ∃ vs, keyOf? c m id = .ok (some vs)) ∧
        (∀ vs, keyOf? c m id = .ok (some vs) → Found c D u m vs o) ∧ ∃ key, keyOf? c m id = .ok key)
    (∀ m key, t.model.bind c.ofClass? = some m → keyOf? c m id = .ok key →
      ∃ vs, key = some vs ∧ Unstorable vs) := by
  unfold lookup
  refine ((reads_modelOf t).imp (fun _ _ _ _ h => h) fun h m key hm => ?_).bind ?_
  · rw [h] at hm
    cases hm
  rintro m s - - ⟨rfl, hm⟩
  cases hkey : keyOf? c m id with
  | error f =>
    intro hs
    refine ⟨hs, .refl _, fun m' key hm' hk => ?_⟩
    obtain rfl := Option.some.inj (hm.symm.trans hm')
    rw [hkey] at hk
    cases hk
  | ok key =>
    rw [ofExcept_ok, pure_bind]
    cases key with
    | none => exact reads_pure fun _ => ⟨m, hm, by simp, by simp [hkey], none, hkey⟩
    | some vs =>
      refine reads_get.bind ?_
      rintro s _ - - ⟨rfl, rfl⟩
      have hfind : ∀ s, Reads I (find c m vs) s
          (fun u o => ∃ m, t.model.bind c.ofClass? = some m ∧
            (o.isSome = true → ∃ vs, keyOf? c m id = .ok (some vs)) ∧
              (∀ vs, keyOf? c m id = .ok (some vs) → Found c D u m vs o) ∧
                ∃ key, keyOf? c m id = .ok key)
          (∀ m key, t.model.bind c.ofClass? = some m → keyOf? c m id = .ok key →
            ∃ vs, key = some vs ∧ Unstorable vs) := by
        refine fun s => (reads_find hI hp hD (ofClass?_mem hm) vs).imp (fun u o _ _ h => ?_)
          fun h m' key' hm' hk => ?_
        · refine ⟨m, hm, fun _ => ⟨vs, hkey⟩, fun vs' hvs => ?_, some vs, hkey⟩
          cases hkey.symm.trans hvs
          exact h
        · obtain rfl := Option.some.inj (hm.symm.trans hm')
          cases hkey.symm.trans hk
          exact ⟨vs, rfl, h⟩
      refine reads_ite (fun _ => hfind s) fun _ => ?_
      exact ((reads_settle hI).imp (fun _ _ _ _ h => h) False.elim).bind fun _ _ _ _ _ => hfind _

/-- What a record has in the column of a name. -/
theorem reads_fieldValue (r : Ref) (name : String) : Reads I (fieldValue c r name) s
    (fun t v => ∃ e, s.known? r = some e ∧
      ∀ x, e.model.column? name = some x → t = s ∧ v = e.cell D name) (s.known? r = none) := by
  refine (reads_entry r).bind ?_
  rintro e s hs - ⟨rfl, he⟩
  have hdraft := (hI.drafts hs).draft e (Session.known?_mem he).1
  cases hx : e.model.column? name with
  | some x =>
    have hname : x.column.name = name := by simpa using List.find?_some hx
    refine (reads_columnValue hI hp hD he (List.mem_of_find?_eq_some hx)).imp ?_ False.elim
    rintro t v - - ⟨rfl, rfl⟩
    exact ⟨e, he, fun _ _ => ⟨rfl, hname ▸ rfl⟩⟩
  | none =>
    have hno : ∀ (t : Session) (v : Value), ∃ e, s.known? r = some e ∧
        ∀ x, e.model.column? name = some x → t = s ∧ v = e.cell D name :=
      fun t v => ⟨e, he, fun x hx' => by simp [hx] at hx'⟩
    cases hl : e.model.link? name with
    | none => exact reads_pure fun _ => hno _ _
    | some l =>
      have hhas : c.Has r l :=
        ⟨e.model, (Session.known?_mem he).2 ▸ hdraft.model?_eq hp, List.mem_of_find?_eq_some hl⟩
      dsimp only
      refine (reads_settleLink hI r l).bind ?_
      rintro _ s - - rfl
      refine (reads_linked hI hp hD hhas).bind fun rs t _ _ _ => ?_
      exact reads_ite (fun _ => reads_pure fun _ => hno _ _) fun _ => reads_pure fun _ => hno _ _

/-- What a known record has in a column is read without a fault. -/
theorem reads_cell {r : Ref} {e : Entry} (he : s.known? r = some e) {name : String}
    {x : MappedColumn} (hx : e.model.column? name = some x) :
    Reads I (fieldValue c r name) s (fun t v => t = s ∧ v = e.cell D name) False := by
  refine (reads_fieldValue hI hp hD r name).imp ?_ fun h => by simp [he] at h
  rintro t v - - ⟨e', he', hcell⟩
  obtain rfl := Option.some.inj (he.symm.trans he')
  exact hcell x hx

theorem reads_relatedBy {r : Ref} {l : Link} (hl : c.Has r l) : Reads I (relatedBy c r l) s
    (fun t x => ∃ xs, t.Leads r l xs ∧ x = l.related xs) (s.known? r = none) := by
  refine (reads_settleLink hI r l).bind ?_
  rintro _ _ - - rfl
  refine (reads_linked hI hp hD hl).bind fun xs t _ _ hxs => ?_
  unfold Link.related
  cases l.isList
  · exact reads_pure fun _ => ⟨xs, hxs, rfl⟩
  · exact reads_pure fun _ => ⟨xs, hxs, rfl⟩

theorem reads_relatedIn (r : Ref) (name : String) : Reads I (relatedIn c r name) s
    (fun t x => ∃ e l xs, s.known? r = some e ∧ e.model.link? name = some l ∧ t.Leads r l xs ∧
      x = l.related xs) (∀ e, s.known? r = some e → e.model.link? name = none) := by
  refine ((reads_entry r).imp (fun _ _ _ _ h => h) fun h e he => ?_).bind ?_
  · rw [h] at he
    cases he
  rintro e s hs - ⟨rfl, he⟩
  have hdraft := (hI.drafts hs).draft e (Session.known?_mem he).1
  cases hl : e.model.link? name with
  | none =>
    refine reads_throw fun _ e' he' => ?_
    rw [← Option.some.inj (he.symm.trans he')]
    exact hl
  | some l =>
    have hhas : c.Has r l :=
      ⟨e.model, (Session.known?_mem he).2 ▸ hdraft.model?_eq hp, List.mem_of_find?_eq_some hl⟩
    refine (reads_relatedBy hI hp hD hhas).imp ?_ fun h => by simp [he] at h
    rintro t x - - ⟨xs, hxs, rfl⟩
    exact ⟨e, l, xs, he, hl, hxs, rfl⟩

/-- A relationship is followed without a fault if it says how many records its link leads
to. -/
theorem reads_related (r : Ref) (rel : Relationship) : Reads I (related c r rel) s
    (fun t x => ∃ e l xs, s.known? r = some e ∧ e.model.link? rel.name = some l ∧
      t.Leads r l xs ∧ x = if rel.isMany then .many xs else l.related xs)
    (∀ e l, s.known? r = some e → e.model.link? rel.name = some l →
      rel.isMany = true ∧ l.isList = false) := by
  unfold related
  refine ((reads_relatedIn hI hp hD r rel.name).imp (fun _ _ _ _ h => h) fun h e l he hl => ?_).bind
    ?_
  · rw [h e he] at hl
    cases hl
  rintro x t - - ⟨e, l, xs, he, hl, hxs, rfl⟩
  refine reads_ite (fun hmany => ?_) fun hone =>
    reads_pure fun _ => ⟨e, l, xs, he, hl, hxs, by rw [if_neg hone]⟩
  have hgiven : ∀ t' : Session, t'.Leads r l xs → ∃ e l' xs', s.known? r = some e ∧
      e.model.link? rel.name = some l' ∧ t'.Leads r l' xs' ∧
        Related.many xs = if rel.isMany then .many xs' else l'.related xs' :=
    fun t' ht' => ⟨e, l, xs, he, hl, ht', by rw [if_pos hmany]⟩
  unfold Link.related
  cases hlist : l.isList with
  | true => exact reads_pure fun _ => hgiven t hxs
  | false =>
    cases xs with
    | nil => exact reads_pure fun _ => hgiven t hxs
    | cons y ys =>
      refine fun ht => ⟨ht, .refl t, fun e' l' he' hl' => ?_⟩
      obtain rfl := Option.some.inj (he.symm.trans he')
      obtain rfl := Option.some.inj (hl.symm.trans hl')
      exact ⟨hmany, hlist⟩

theorem reads_source (r : Ref) (name : String) : Reads I (source c r name) s
    (fun t ys => ∃ e l xs, s.known? r = some e ∧ e.model.link? name = some l ∧ t.Leads r l xs ∧
      ys = xs)
    (∀ e l, s.known? r = some e → e.model.link? name = some l → l.isList = false) := by
  unfold source
  refine ((reads_relatedIn hI hp hD r name).imp (fun _ _ _ _ h => h) fun h e l he hl => ?_).bind ?_
  · rw [h e he] at hl
    cases hl
  rintro x t - - ⟨e, l, xs, he, hl, hxs, rfl⟩
  unfold Link.related
  cases hlist : l.isList with
  | true => exact reads_pure fun _ => ⟨e, l, xs, he, hl, hxs, rfl⟩
  | false =>
    cases xs with
    | nil => exact reads_pure fun _ => ⟨e, l, [], he, hl, hxs, rfl⟩
    | cons y ys =>
      refine fun ht => ⟨ht, .refl t, fun e' l' he' hl' => ?_⟩
      obtain rfl := Option.some.inj (he.symm.trans he')
      obtain rfl := Option.some.inj (hl.symm.trans hl')
      exact hlist

end Act

end Hypermedia
