import Hypermedia.Proofs.Session.Granting
import Hypermedia.Proofs.Session.Owning

/-!
# Writing what was aimed at

A session that aims at some cells has these in its rows after it was written (`Aimed.yields`). Each
cell is followed on its own. If a link that fills the column was changed, then the column is filled
in before the row is written (`Act.ends_redirected`); if none was, then nothing but what was given
to the column is written to it (`Act.ends_kept`), since a list which the column leads to has neither
gained nor lost the record (`Aimed.not_moved`).
-/

namespace Hypermedia

namespace LinkState

variable {st : LinkState} {x : Ref}

theorem mem_joined_of_gained (h : x ∈ st.gained) : x ∈ st.joined := by
  cases st with
  | unread added removed => cases h
  | read before now => exact h

theorem mem_left_of_dropped (h : x ∈ st.dropped) : x ∈ st.left := by
  cases st with
  | unread added removed => cases h
  | read before now => exact h

end LinkState

/-- A link of the record that fills the column was changed. -/
def Entry.Redirects (e : Entry) (name : String) : Prop :=
  ∃ l ∈ e.model.links, l.kind = .reference name ∧
    ∃ st, Fields.get? l.name e.links = some st ∧ st.isChanged = true

/-- What a stored record has in its row. -/
theorem Entry.shown_eq_cells {e : Entry} {D : Database} {k : Int} (hk : e.key = [.int k])
    (name : String) : e.shown D name = D.cells e.model.rootTable name k := by
  rw [Entry.shown, Entry.row?_eq_some hk]
  rfl

/-- What is kept of a value that equals what a simple column has is what it has. -/
theorem ColumnType.store_of_beq {type : ColumnType} (h : type.isSimple = true) {v u : Value}
    (hv : v = .null ∨ type.holds v = true) (hu : u = .null ∨ type.keeps u = true)
    (heq : (v == u) = true) : type.store v = .ok u := by
  have hnull : ∀ w : Value, (w == Value.null) = true → w = .null := fun w hw => by
    cases w <;> first | rfl | cases hw
  rcases hv with rfl | hv
  · rw [Value.null_beq_eq heq]
    exact store_null h
  rcases hu with rfl | hu
  · rw [hnull v heq]
    exact store_null h
  cases type <;> simp only [isSimple, Bool.false_eq_true] at h
  case integer =>
    cases u <;> simp only [keeps, Bool.false_eq_true, decide_eq_true_eq] at hu
    next m =>
    have hstore : ∀ n, n = m → storeInteger n = .ok (.int m) := fun n hn => by
      rw [storeInteger, hn, if_pos hu]
    cases v <;> simp only [holds, Bool.false_eq_true] at hv
    case int n => exact hstore n (by simpa using heq)
    case bool b =>
      have hb : (if b then 1 else 0 : Int) = m := by
        have hnum : (Decimal.ofInt (if b then 1 else 0)).numEq (.ofInt m) = true := heq
        simpa [Decimal.numEq_ofInt] using hnum
      rw [← hb]
      cases b <;> rfl
  case string =>
    cases u <;> simp only [keeps, Bool.false_eq_true] at hu
    cases v <;> simp only [holds, Bool.false_eq_true] at hv
    case text.text =>
      rw [Value.text_beq_eq heq]
      rfl
    case text.torn => cases heq
  case boolean =>
    cases u <;> simp only [keeps, Bool.false_eq_true] at hu
    cases v <;> simp only [holds, Bool.false_eq_true] at hv
    next b a =>
    have hnum : (Decimal.ofInt (if a then 1 else 0)).numEq (.ofInt (if b then 1 else 0)) = true :=
      heq
    rw [Decimal.numEq_ofInt] at hnum
    cases a <;> cases b <;> first | rfl | cases hnum
  case date =>
    cases u <;> simp only [keeps, Bool.false_eq_true] at hu
    cases v <;> simp only [holds, Bool.false_eq_true] at hv
    case date.date b a =>
      have hab : a = b := by simpa using (show (a == b) = true from heq)
      rw [hab]
      rfl
    case date.dateTime => cases heq

/-- What a row with a number or nothing in a column of numbers has there after a number or nothing
was written is that. -/
theorem Column.Written.eq_of_integer {x : Column} (htype : x.type = .integer) {u v w : Value}
    (hu : u = .null ∨ ∃ i, u = .int i) (hv : v = .null ∨ ∃ i, v = .int i)
    (hw : x.Written u (some v) w) : w = v := by
  cases hw with
  | stored hstores =>
    rcases hv with rfl | ⟨i, rfl⟩
    · exact hstores.null rfl
    · exact ColumnType.store_int (htype ▸ hstores.store)
  | same hsame =>
    rcases hv with rfl | ⟨i, rfl⟩
    · exact Value.null_beq_eq hsame
    · rcases hu with rfl | ⟨j, rfl⟩
      · cases hsame
      · rw [Value.int_beq, decide_eq_true_eq] at hsame
        rw [hsame]

namespace Catalog

/-- A session that is writing what its records, all of them stored before, were given: they keep
their keys, and no other cells are written. -/
structure Rewriting (c : Catalog) (s₀ s : Session) : Prop extends c.Saving s₀ s where
  keyed : ∀ e₀ ∈ s₀.entries, ∀ e ∈ s.entries, e.ref = e₀.ref → e.key = e₀.key
  numbered : s.db.numbers = s₀.db.numbers
  rest : ∀ table column j, (∀ e ∈ s₀.entries, e.model.rootTable = table → e.key = [.int j] →
    e.model.column? column = none) → s.db.cells table column j = s₀.db.cells table column j

variable {c : Catalog} {D : Database} {K : Ref → String → Int → Prop} {r : Ref}
  {N : Ref → String → Prop} {G : Cells} {H : Ref → Prop} {s₀ s t : Session} {e₀ : Entry}
  {name : String}

theorem Drafts.rewriting (hs : c.Drafts D s) (hD : c.Sound D) : c.Rewriting s s where
  toSaving := hs.saving hD
  keyed := fun _ he₀ _ he href => by rw [Session.eq_of_ref_eq hs.distinct he he₀ href]
  numbered := rfl
  rest := fun _ _ _ _ => rfl

/-- Every step of the writing writes cells of the records alone. -/
theorem Drafts.writing_rewriting (hs₀ : c.Drafts D s₀) (hp : c.Plain)
    (hstored : ∀ e ∈ s₀.entries, e.isStored = true) : c.Writing s₀ (c.Rewriting s₀) where
  saving := Rewriting.toSaving
  refer := by
    intro s e column v h he hmember hv _
    refine ⟨h.toSaving.refer hs₀ he hmember hv, fun e₀ he₀ e' he' href => ?_, h.numbered, h.rest⟩
    obtain ⟨e₁, he₁, ⟨-, rfl⟩ | ⟨-, rfl⟩⟩ := Session.mem_modify he'
    · exact h.keyed e₀ he₀ e₁ he₁ href
    · exact h.keyed e₀ he₀ _ he₁ href
  insert := by
    intro s e db' row h he hpending _
    obtain ⟨e₀, he₀, hframe⟩ := h.exists_frame he
    have hst := hstored e₀ he₀
    rw [← Session.isStored_congr (Entry.phase_of_frame hframe), Entry.isStored_eq_false hpending]
      at hst
    cases hst
  update := by
    intro s e k row db' h he hst hk hrow hupd
    obtain ⟨⟨_, hupdated⟩, hsaving⟩ := h.toSaving.update hp hs₀ he hst hk hrow hupd
    have hsaved := h.saved e he
    have hid : "id" ∉ Row.names (Act.changedCells e e.model.rootTable row) := fun hmem => by
      have hgiven := given?_of_changedCells hmem
      rw [hsaved.given?_id hp h.sound] at hgiven
      cases hgiven
    rw [hk] at hupd
    refine ⟨hsaving, fun e₀ he₀ e' he' href => ?_,
      (h.sound.numbers_update hp hupd hid).trans h.numbered, fun table column j hno => ?_⟩
    · obtain ⟨e₁, he₁, ⟨href₁, rfl⟩ | ⟨-, rfl⟩⟩ := Session.mem_modify he'
      · obtain rfl := h.eq_of_ref hs₀ he he₁ href₁
        exact hupdated.key.trans (h.keyed e₀ he₀ e₁ he href)
      · exact h.keyed e₀ he₀ _ he₁ href
    · refine (h.sound.cells_update hp hupd hid ?_).trans (h.rest table column j hno)
      rintro ⟨rfl, rfl, hmem⟩
      -- A cell that is written is one of a column of the model.
      obtain ⟨e₀, he₀, hframe⟩ := h.exists_frame he
      have hmodel := Entry.model_of_frame hframe
      have hnone := hno e₀ he₀ (by rw [hmodel])
        ((h.keyed e₀ he₀ e he (Entry.ref_of_frame hframe)).symm.trans hk)
      rw [← hmodel] at hnone
      rcases hsaved.value _ (mem_of_given? (given?_of_changedCells hmem)) with
        ⟨x, hx, -⟩ | ⟨x, -, hx, -⟩ <;> exact absurd (hx.symm.trans hnone) nofun

section

variable (h : c.Aimed D K r N G (fun _ _ => G) s) (hp : c.Plain) (hD : c.Sound D)
  (hpaired : c.Paired) (he₀ : e₀ ∈ s.entries) {k : Int} (hk : e₀.key = [.int k])
  {x : MappedColumn} (hx : e₀.model.column? name = some x)

include h he₀ in
/-- A link that was changed and fills a column leads to the record that the cell is to name. -/
theorem Aimed.names_of_isChanged {l : Link} (hl : l ∈ e₀.model.links)
    (hkind : l.kind = .reference name) {t : Model} (ht : c.model? l.target = some t)
    (hk : e₀.key = [.int k]) {st : LinkState} (hst : Fields.get? l.name e₀.links = some st)
    (hchanged : st.isChanged = true) :
    s.Names t.rootTable st.current (G e₀.model.rootTable name k) := by
  have haims := (h.tells e₀ he₀ l hl).one name t k hkind ht hk
  rw [Entry.linkState, hst] at haims
  cases st with
  | unread added removed =>
    obtain ⟨rfl, rfl, -⟩ := haims.unread added removed rfl
    cases hchanged
  | read before now => exact haims.now before now rfl

include h hp hpaired he₀ hk hx

/-- A cell stays if nothing was given to the column and no link that fills it was changed. -/
theorem Aimed.cell_kept (hno : ¬e₀.Redirects name) (hnone : e₀.given? name = none) :
    G e₀.model.rootTable name k = D.cells e₀.model.rootTable name k := by
  cases hto : x.column.refersTo with
  | none =>
    refine (h.settles e₀ he₀).kept k hk name (fun y hy => ?_) hnone
    rw [← Option.some.inj (hx.symm.trans hy), hto]
  | some y =>
    have hmodel := (h.draft e₀ he₀).model
    have hname : x.column.name = name := by simpa using List.find?_some hx
    obtain ⟨l, hl, hkind⟩ := hpaired.filled _ hmodel x (List.mem_of_find?_eq_some hx)
      (by simp [hto])
    rw [hname] at hkind
    obtain ⟨t, ht, -⟩ := hp.linkSpec hmodel hl
    have haims := (h.tells e₀ he₀ l hl).one name t k hkind ht hk
    cases hst : Fields.get? l.name e₀.links with
    | none =>
      have hunread : e₀.linkState l.name = .unread [] [] := by
        simp [Entry.linkState, hst, h.stored e₀ he₀]
      exact (haims.unread _ _ hunread).2.2
    | some st =>
      have hread : e₀.linkState l.name = st := by rw [Entry.linkState, hst]
      have hsame : st.isChanged = false := by
        by_contra hchanged
        exact hno ⟨l, hl, hkind, st, hst, by simpa using hchanged⟩
      cases st with
      | unread added removed => exact (haims.unread _ _ hread).2.2
      | read before now =>
        have hbefore : before = some now := by simpa [LinkState.isChanged] using hsame
        exact (haims.now _ _ hread).value_unique h.toDrafts
          (haims.before now now (hbefore ▸ hread))

/-- Where no link that fills a column was changed the record neither joined nor left a list that
the column leads to. -/
theorem Aimed.not_moved (hno : ¬e₀.Redirects name) {owner : Entry} (ho : owner ∈ s.entries)
    {l : Link} (hl : (l, name) ∈ Act.memberLinks owner) :
    e₀.ref ∉ (owner.linkState l.name).gained ∧ e₀.ref ∉ (owner.linkState l.name).dropped := by
  have hdraft := h.draft e₀ he₀
  obtain ⟨hlmem, hkind⟩ := mem_memberLinks.1 hl
  have howner := h.draft owner ho
  obtain ⟨t, ht, -⟩ := hp.linkSpec howner.model hlmem
  obtain ⟨j, hj, -⟩ := h.holds_self ho
  have hcounts := (h.tells owner ho l hlmem).many name t j hkind ht hj
  have hself : s.Holds e₀.ref e₀.model.rootTable k := ⟨e₀, he₀, rfl, h.stored e₀ he₀, rfl, hk⟩
  -- If it did, the column would refer to other records, and the cell would stay.
  have hstays : e₀.ref ∈ (owner.linkState l.name).refs →
      G e₀.model.rootTable name k = D.cells e₀.model.rootTable name k := fun hrefs => by
    have hrefers := (hp.refersTo_of_memberLink howner hl hrefs (hdraft.model?_eq hp)).2
    obtain ⟨y, hy, hto⟩ := (Option.any_eq_true _ _).1 hrefers
    obtain rfl := Option.some.inj (hx.symm.trans hy)
    have hto : x.column.refersTo = some (owner.model.rootTable, "id") := by simpa using hto
    exact h.cell_kept hp hpaired he₀ hk hx hno (hdraft.given?_eq_none hp hx (by simp [hto]))
  refine ⟨fun hmem => ?_, fun hmem => ?_⟩
  · have hsame := hstays (LinkState.mem_refs_of_gained hmem)
    obtain ⟨i, hi, hC, hG⟩ := hcounts.joined _ (LinkState.mem_joined_of_gained hmem)
    obtain ⟨hroot, rfl⟩ := h.toDrafts.number_unique hself hi
    rw [← hroot] at hC hG
    exact hC (hsame ▸ hG)
  · have hsame := hstays (LinkState.mem_refs_of_dropped hmem)
    obtain ⟨i, hi, hC, hG⟩ := hcounts.left _ (LinkState.mem_left_of_dropped hmem)
    obtain ⟨hroot, rfl⟩ := h.toDrafts.number_unique hself hi
    rw [← hroot] at hC hG
    exact hG (hsame ▸ hC)

include hD

/-- What the row has in the column after it is written is what it is to have there, if no link that
fills the column was changed. -/
theorem Aimed.written_eq (hno : ¬e₀.Redirects name) {u w : Value}
    (hu : u = D.cells e₀.model.rootTable name k ∨ u = G e₀.model.rootTable name k)
    (hw : x.column.Written u (e₀.given? name) w) : w = G e₀.model.rootTable name k := by
  have hdraft := h.draft e₀ he₀
  cases hg : e₀.given? name with
  | none =>
    rw [hg] at hw
    cases hw
    rcases hu with rfl | rfl
    · exact (h.cell_kept hp hpaired he₀ hk hx hno hg).symm
    · rfl
  | some v =>
    have hfree : x.column.refersTo = none := by
      by_contra hsome
      have hnone := hdraft.given?_eq_none hp hx (Option.isSome_iff_ne_none.2 hsome)
      exact absurd (hg.symm.trans hnone) nofun
    have hgiven : ∀ z, x.column.type.store v = .ok z → G e₀.model.rootTable name k = z :=
      fun z hz => (h.settles e₀ he₀).given k hk name x v z hx hfree hg hz
    rw [hg] at hw
    cases hw with
    | stored hstores => exact (hgiven w hstores.store).symm
    | same hsame =>
      rcases hu with rfl | rfl
      · -- What equals the value of the row is stored as that value.
        obtain ⟨j, row, hj, hrow, -⟩ := hdraft.stored (h.stored e₀ he₀)
        obtain rfl := Value.int.inj (List.cons.inj (hk.symm.trans hj)).1
        obtain ⟨hsimple, hcell⟩ := hD.cell hp hdraft.model hrow hx
        rw [Database.cells_eq hrow] at hsame ⊢
        refine (hgiven _ (ColumnType.store_of_beq hsimple ?_ (hcell.imp_left And.left)
          hsame)).symm
        obtain ⟨y, hy, ⟨-, hv⟩ | ⟨hkind, i, -, rfl⟩⟩ := hdraft.value _ (mem_of_given? hg)
        · exact Option.some.inj (hx.symm.trans hy) ▸ hv
        · have htype := hp.kind e₀.model hdraft.model name hkind
          rw [hx] at htype
          simp only [Option.any_some, Bool.and_eq_true, beq_iff_eq] at htype
          rw [htype.1.1]
          exact Or.inr rfl
      · rfl

end

end Catalog

/-- Giving a value to another column, or to another record, leaves what a record shows. -/
theorem Session.Shows.setValue {s : Session} {r x : Ref} {name column : String}
    {P : Option Value → Value → Prop} (h : s.Shows r name P) (hne : x ≠ r ∨ column ≠ name)
    (v : Value) : (s.modify x fun e => e.setValue column v).Shows r name P := by
  intro e he href hst
  obtain ⟨e₁, he₁, ⟨href₁, rfl⟩ | ⟨-, rfl⟩⟩ := Session.mem_modify he
  · rw [Entry.given?_setValue, if_neg]
    · exact h e₁ he₁ href hst
    · exact fun heq => hne.elim (fun hx => hx (href₁.symm.trans href)) fun hc => hc heq.symm
  · exact h _ he₁ href hst

/-- Writing rows keeps what a stored record shows besides another property. -/
theorem Catalog.RowWriting.and_shows {c : Catalog} {D : Database} {s₀ : Session}
    {K : Session → Prop} (hK : c.RowWriting s₀ K) (hs₀ : c.Drafts D s₀) (hp : c.Plain) {r : Ref}
    {m : Model} (hm : c.model? r.model = some m) {name : String} {x : MappedColumn}
    (hx : m.column? name = some x) {P : Option Value → Value → Prop}
    (hwrite : ∀ g u w, P g u → x.column.Written u g w → P g w) :
    c.RowWriting s₀ fun s => K s ∧ s.Shows r name P where
  saving := fun h => hK.saving h.1
  insert := fun h he hpending hins => ⟨hK.insert h.1 he hpending hins,
    ((hs₀.rowWriting_shows hp hm hx hwrite).insert ⟨hK.saving h.1, h.2⟩ he hpending hins).2⟩
  update := fun h he hst hk hrow hupd => ⟨hK.update h.1 he hst hk hrow hupd,
    ((hs₀.rowWriting_shows hp hm hx hwrite).update ⟨hK.saving h.1, h.2⟩ he hst hk hrow hupd).2⟩

namespace Act

open Catalog

variable {c : Catalog} {D : Database} {s₀ s : Session} {es : List Entry} {e₀ : Entry}
  {name : String} {C : Session → Prop}

/-- Filling in the columns of a record gives nothing to a column that no changed link fills, if
no list that the column leads to gained or lost the record. -/
theorem keeps_referToAll_idle {I : Session → Prop} (hkept : ∀ e ∈ es, e.isDoomed = false)
    (hlinks : ∀ l ∈ e₀.model.links, l.kind = .reference name → ∀ st,
      Fields.get? l.name e₀.links = some st → (e₀.isPending || st.isChanged) = false)
    (howners : ∀ owner ∈ es, ∀ l, (l, name) ∈ memberLinks owner →
      e₀.ref ∉ (owner.linkState l.name).gained ∧ e₀.ref ∉ (owner.linkState l.name).dropped)
    (hframe : ∀ s, I s → ∀ e ∈ s.entries, e.ref = e₀.ref → e.frame = e₀.frame)
    (hI : ∀ s column v, column ≠ name → I s →
      I (s.modify e₀.ref fun e => e.setValue column v)) :
    Keeps I (referToAll es e₀.ref) fun _ => True := by
  have hrefer : ∀ column v, column ≠ name → Keeps I (refer e₀.ref column v) fun _ => True :=
    fun column v hne => keeps_refer_of fun s hs => hI s column v hne hs
  have hunrefer : Keeps I (unrefer es e₀.ref) fun _ => True := by
    have hnone : es.filter Entry.isDoomed = [] :=
      List.filter_eq_nil_iff.2 fun e he h => by simp [hkept e he] at h
    unfold unrefer
    rw [hnone]
    exact keeps_pure trivial
  refine hunrefer.bind fun _ _ => Keeps.bind (P := fun _ => True)
    ((still_entry e₀.ref).keeps.bind fun e _ => keeps_forM fun owner ho =>
      keeps_forM fun x hx => ?_) fun _ _ => ?_
  · obtain ⟨l, column⟩ := x
    by_cases hname : column = name
    · subst hname
      obtain ⟨hgained, hdropped⟩ := howners owner (List.mem_filter.1 ho).1 l hx
      have hgained : (owner.linkState l.name).gained.contains e₀.ref = false := by
        simpa using hgained
      have hdropped : (owner.linkState l.name).dropped.contains e₀.ref = false := by
        simpa using hdropped
      simp only [hgained, hdropped, Bool.false_and, Bool.false_eq_true, if_false]
      exact keeps_pure trivial
    · have hdrop : ∀ p : Bool, Keeps I (if p then refer e₀.ref column .null else pure ())
          fun _ => True :=
        fun p => keeps_ite (fun _ => hrefer _ _ hname) fun _ => keeps_pure trivial
      exact keeps_ite (fun _ => (still_entry owner.ref).keeps.bind fun o _ =>
        (hrefer _ _ hname).bind fun _ _ => hdrop _) fun _ => hdrop _
  · have hentry : Keeps I (entry e₀.ref) fun e => e.frame = e₀.frame := fun s hs =>
      ((still_entry e₀.ref) s).imp (fun e t h => by
        obtain ⟨rfl, he⟩ := h
        obtain ⟨hmem, href⟩ := Session.known?_mem he
        exact ⟨hs, hframe t hs e hmem href⟩) fun _ _ h => h ▸ hs
    refine hentry.bind fun e hsame => keeps_forM fun l hl =>
      keeps_referLink_of fun column st hkind hst hchanged s v hs => hI s column v ?_ hs
    rintro rfl
    rw [Entry.model_of_frame hsame] at hl
    rw [Entry.links_of_frame hsame] at hst
    have hpending : e.isPending = e₀.isPending := by
      simp [Entry.isPending, Entry.phase_of_frame hsame]
    rw [hpending, hlinks l hl hkind st hst] at hchanged
    cases hchanged

section

variable (hp : c.Plain) (hs₀ : c.Drafts D s₀) (hes : ∀ e ∈ es, e ∈ s₀.entries ∧ e.isMember = true)
  {K : Session → Prop} (hK : c.Writing s₀ K) (hC : ∀ s, K s → C s) (he₀ : e₀ ∈ s₀.entries)
  {x : MappedColumn} (hx : e₀.model.column? name = some x) {P Q : Option Value → Value → Prop}

include hp hs₀ hes hK he₀ hx

/-- What a stored record shows is passed on if writing it passes it on, and filling in its
columns. -/
theorem passing_shows (hC : ∀ s, K s → C s)
    (hwrite : ∀ g u w, P g u → x.column.Written u g w → P g w)
    (hself : e₀ ∈ es → Takes C (fun s => K s ∧ s.Shows e₀.ref name P)
      (fun s => K s ∧ s.Shows e₀.ref name P) (referToAll es e₀.ref)) :
    c.Passing s₀ es C fun s => K s ∧ s.Shows e₀.ref name P where
  toRowWriting := hK.toRowWriting.and_shows hs₀ hp ((hs₀.draft e₀ he₀).model?_eq hp) hx hwrite
  fails := fun s hs => hC s hs.1
  referToAll := by
    intro e he
    by_cases hsame : e.ref = e₀.ref
    · obtain rfl := Session.eq_of_ref_eq hs₀.distinct (hes e he).1 he₀ hsame
      exact hself he
    · exact fun u hu => ((keeps_referToAll hp hs₀ hK hes he u hu.1).and
        (keeps_referToAll_of (I := fun s => s.Shows e₀.ref name P)
          (fun s column v hs => hs.setValue (Or.inl hsame) v) u hu.2)).imp
            (fun _ _ h => ⟨h.1.1, h.2.1⟩) fun _ t h => hC t h.1

/-- What a stored record was given is in its row after its row is written, and another property
stays. -/
theorem takes_updateRow_and (hC : ∀ s, K s → C s) (hmem : e₀ ∈ es) (hst : e₀.isStored = true)
    (hwrite : ∀ g u w, P g u → x.column.Written u g w → P g w)
    (hQ : ∀ g u w, P g u → x.column.Written u g w → Q g w) :
    Takes C (fun s => K s ∧ s.Shows e₀.ref name P) (fun s => K s ∧ s.Shows e₀.ref name Q)
      (updateRow e₀.model.rootTable e₀.ref) := by
  intro s hs
  have hW := hs₀.rowWriting_shows hp ((hs₀.draft e₀ he₀).model?_eq hp) hx hwrite
  exact ((keeps_updateRow hp hs₀ hK.toRowWriting hes hmem hst s hs.1).and
    (takes_updateRow hp hs₀ hes hmem hst hx hW hQ s ⟨hK.saving hs.1, hs.2⟩)).imp
      (fun _ _ h => ⟨h.1.1, h.2.2⟩) fun _ t h => hC t h.1

end

section

variable {K : Ref → String → Int → Prop} {r : Ref} {N : Ref → String → Prop} {G : Cells}
  (h : c.Aimed D K r N G (fun _ _ => G) s) (hp : c.Plain) (hD : c.Sound D) (hpaired : c.Paired)
  (he₀ : e₀ ∈ s.entries) {k : Int} (hk : e₀.key = [.int k]) {x : MappedColumn}
  (hx : e₀.model.column? name = some x)

include h hp hD hpaired he₀ hk hx

/-- A cell becomes what it is to be if no link that fills the column was changed. -/
theorem ends_kept (hno : ¬e₀.Redirects name) :
    Ends (c.rootTables.forM (saveTable (involvedRecords s))) s
      (fun _ t => t.Shows e₀.ref name fun _ u => u = G e₀.model.rootTable name k)
      fun _ t => t.committed = s.committed := by
  have hes := fun e (he : e ∈ involvedRecords s) => mem_of_involvedRecords he
  have hs := h.toDrafts
  have hst := h.stored e₀ he₀
  have hpending := Entry.isPending_eq_false hst
  have hwritten : ∀ u w, u = D.cells e₀.model.rootTable name k ∨ u = G e₀.model.rootTable name k →
      x.column.Written u (e₀.given? name) w → w = G e₀.model.rootTable name k := fun _ _ =>
    h.written_eq hp hD hpaired he₀ hk hx hno
  -- Nothing but the rows is written to the column.
  have hself : ∀ P : Value → Prop, e₀ ∈ involvedRecords s →
      Takes (fun t => t.committed = s.committed)
        (fun t => c.Saving s t ∧ t.Shows e₀.ref name fun g u => g = e₀.given? name ∧ P u)
        (fun t => c.Saving s t ∧ t.Shows e₀.ref name fun g u => g = e₀.given? name ∧ P u)
        (referToAll (involvedRecords s) e₀.ref) := by
    intro P hmem t ht
    refine ((keeps_referToAll hp hs (hs.writing hp) hes hmem t ht.1).and
      (keeps_referToAll_idle
        (I := fun t => (∀ e ∈ t.entries, e.ref = e₀.ref → e.frame = e₀.frame) ∧
          t.Shows e₀.ref name fun g u => g = e₀.given? name ∧ P u)
        (fun e he => h.kept e (hes e he).1) (fun l hl hkind st hst => ?_)
        (fun owner ho l hl => h.not_moved hp hpaired he₀ hk hx hno (hes owner ho).1 hl)
        (fun _ hI => hI.1) (fun u column v hne hI => ⟨fun e he href => ?_,
          hI.2.setValue (Or.inr hne) v⟩) t ⟨fun e he href => ?_, ht.2⟩)).imp
            (fun _ _ h => ⟨h.1.1, h.2.1.2⟩) fun _ _ h => h.1.committed
    · rw [hpending, Bool.false_or]
      by_contra hchanged
      exact hno ⟨l, hl, hkind, st, hst, by simpa using hchanged⟩
    · obtain ⟨e₁, he₁, ⟨-, rfl⟩ | ⟨-, rfl⟩⟩ := Session.mem_modify he
      · exact hI.1 e₁ he₁ href
      · exact hI.1 _ he₁ href
    · exact ht.1.frame_eq hs he he₀ href
  have hpassing : ∀ P : Value → Prop, (∀ u, P u →
      u = D.cells e₀.model.rootTable name k ∨ u = G e₀.model.rootTable name k) →
      (P (G e₀.model.rootTable name k)) → c.Passing s (involvedRecords s)
        (fun t => t.committed = s.committed) fun t => c.Saving s t ∧
          t.Shows e₀.ref name fun g u => g = e₀.given? name ∧ P u := fun P hP hG =>
    passing_shows hp hs hes (hs.writing hp) he₀ hx (fun _ ht => ht.committed)
      (fun g u w hg hw => ⟨hg.1, hwritten u w (hP u hg.2) (hg.1 ▸ hw) ▸ hG⟩) (hself P)
  have hJ := hpassing (· = G e₀.model.rootTable name k) (fun _ => Or.inr) rfl
  have hshown : e₀.shown s.db name = D.cells e₀.model.rootTable name k := by
    rw [h.db, Entry.shown_eq_cells hk]
  cases hg : e₀.given? name with
  | none =>
    refine (takes_saveTables_self hp hs hes hJ s ⟨hs.saving hD, fun e he href _ => ?_⟩).imp
      (fun _ t ht e he href hst => (ht.2 e he href hst).2) fun _ _ h => h
    obtain rfl := Session.eq_of_ref_eq hs.distinct he he₀ href
    exact ⟨rfl, hshown.trans (h.cell_kept hp hpaired he₀ hk hx hno hg).symm⟩
  | some v =>
    have hmember := Entry.isMember_of_isStored hst
    have hdirty : isDirty e₀ = true := by
      have hne := List.ne_nil_of_mem (Catalog.mem_of_given? hg)
      simp [isDirty, hmember, h.kept e₀ he₀, Entry.isChanged, hne]
    have hmem := involvedRecords_of_isDirty he₀ hdirty
    have hI := hpassing (fun u => u = D.cells e₀.model.rootTable name k ∨
      u = G e₀.model.rootTable name k) (fun _ => id) (Or.inr rfl)
    refine (takes_saveTables hp hs hes hI hI hJ
      ⟨hmem, h.kept e₀ he₀, hself _ hmem, fun _ => ?_, fun h => ?_⟩ s
      ⟨hs.saving hD, fun e he href _ => ?_⟩).imp
        (fun _ t ht e he href hst => (ht.2 e he href hst).2) fun _ _ h => h
    · exact takes_updateRow_and hp hs hes (hs.writing hp) he₀ hx (fun _ ht => ht.committed) hmem hst
        (fun g u w hg hw => ⟨hg.1, Or.inr (hwritten u w hg.2 (hg.1 ▸ hw))⟩)
        fun g u w hg hw => ⟨hg.1, hwritten u w hg.2 (hg.1 ▸ hw)⟩
    · rw [hpending] at h
      cases h
    · obtain rfl := Session.eq_of_ref_eq hs.distinct he he₀ href
      exact ⟨rfl, Or.inl hshown⟩

omit hD hx in
/-- After the columns of a record were filled in, one that a changed link fills has what it is to
have. -/
theorem takes_referToAll_redirected (hmoved : e₀.Redirects name) :
    e₀ ∈ involvedRecords s → Takes (fun t => t.committed = s.committed) (c.Rewriting s)
      (fun t => c.Rewriting s t ∧ Gives e₀.ref name (G e₀.model.rootTable name k) t)
      (referToAll (involvedRecords s) e₀.ref) := by
  intro hmem
  have hes := fun e (he : e ∈ involvedRecords s) => mem_of_involvedRecords he
  have hs := h.toDrafts
  have hK := hs.writing_rewriting hp h.stored
  obtain ⟨l, hl, hkind, st, hst, hchanged⟩ := hmoved
  have hmodel := (h.draft e₀ he₀).model
  obtain ⟨t, back, hpair⟩ := hpaired.of_reference hp hmodel hl hkind
  have hnames := h.names_of_isChanged he₀ hl hkind hpair.target hk hst hchanged
  refine ((keeps_unrefer hp hs hK hes hmem).takes fun _ h => h.committed).bind fun _ =>
    ((keeps_referToOwners hp hs hK hes hmem).takes fun _ h => h.committed).bind fun _ =>
      takes_referToOthers hp hs hK hes (fun _ h => h.committed) hmem hl
        (fun l' hl' hkind' => hpair.eq_of_kind hpaired hl' hkind') fun e hframe u hu => ?_
  refine (ends_referLink hp hs hK hes hu hmem hframe hl).imp (fun _ v hv => ⟨hv.1, ?_⟩)
    fun _ _ h => h.committed
  intro e' he' href
  have hknown := href ▸ hv.1.known?_eq hs he'
  obtain ⟨hnothing, hother⟩ := hv.2 name st hkind hst (by simp [hchanged])
  rcases hnames.eq_or with ⟨hnow, hv'⟩ | ⟨o, i, hnow, hv', ho⟩
  · rw [hv']
    exact hnothing hnow e' hknown
  · obtain ⟨o', ho', hgiven⟩ := hother o [] hnow
    obtain ⟨ho'mem, ho'ref⟩ := Session.known?_mem ho'
    obtain ⟨o₀, ho₀, rfl, hst₀, -, hkey₀⟩ := ho
    have hstored : o'.isStored = true :=
      (Session.isStored_congr (Entry.phase_of_frame (hu.frame_eq hs ho'mem ho₀ ho'ref))).trans hst₀
    rw [hgiven (Entry.isMember_of_isStored hstored) e' hknown, keyValue,
      hu.keyed o₀ ho₀ o' ho'mem ho'ref, hkey₀, hv']
    rfl

/-- A cell becomes what it is to be if a link that fills the column was changed. -/
theorem ends_redirected (hmoved : e₀.Redirects name) :
    Ends (c.rootTables.forM (saveTable (involvedRecords s))) s
      (fun _ t => t.Shows e₀.ref name fun _ u => u = G e₀.model.rootTable name k)
      fun _ t => t.committed = s.committed := by
  have hes := fun e (he : e ∈ involvedRecords s) => mem_of_involvedRecords he
  have hs := h.toDrafts
  have hK := hs.writing_rewriting hp h.stored
  have hst := h.stored e₀ he₀
  have hmember := Entry.isMember_of_isStored hst
  have hdirty : isDirty e₀ = true := by
    obtain ⟨l, -, -, st, hget, hchanged⟩ := hmoved
    have hany : (e₀.links.any fun l => l.2.isChanged) = true := by
      obtain ⟨⟨n, st'⟩, hfind, rfl⟩ := Option.map_eq_some_iff.1 hget
      exact List.any_eq_true.2 ⟨_, List.mem_of_find?_eq_some hfind, hchanged⟩
    simp [isDirty, hmember, h.kept e₀ he₀, Entry.isChanged, hany]
  have hmem := involvedRecords_of_isDirty he₀ hdirty
  have hrefer := takes_referToAll_redirected h hp hpaired he₀ hk hmoved hmem
  obtain ⟨l, hl, hkind, st, hget, hchanged⟩ := hmoved
  have hmodel := (h.draft e₀ he₀).model
  obtain ⟨t, ht, hspec⟩ := hp.linkSpec hmodel hl
  obtain ⟨y, hy, hto⟩ := (Option.any_eq_true _ _).1 (hspec.reference name hkind).2
  obtain rfl := Option.some.inj (hx.symm.trans hy)
  have hto : x.column.refersTo = some (t.rootTable, "id") := by simpa using hto
  have htype := hp.reference_type hmodel hx hto
  have hnames := h.names_of_isChanged he₀ hl hkind ht hk hget hchanged
  generalize hv : G e₀.model.rootTable name k = v at hrefer hnames ⊢
  have hvalue : v = .null ∨ ∃ i, v = .int i := by
    rcases hnames.eq_or with ⟨-, hnull⟩ | ⟨-, i, -, hi, -⟩
    · exact Or.inl hnull
    · exact Or.inr ⟨i, hi⟩
  have hwrite : ∀ u w, u = .null ∨ (∃ i, u = .int i) → x.column.Written u (some v) w → w = v :=
    fun u w hu hw => hw.eq_of_integer htype hu hvalue
  have hstep : ∀ P : Value → Prop, (∀ u, P u → u = .null ∨ ∃ i, u = .int i) → P v →
      ∀ g u w, g = some v ∧ P u → x.column.Written u g w → g = some v ∧ P w := by
    rintro P hP hPv g u w ⟨rfl, hu⟩ hw
    exact ⟨rfl, hwrite u w (hP u hu) hw ▸ hPv⟩
  -- Before the row is written the column has a number in it, or nothing.
  have hshown : ∀ t, c.Rewriting s t → ∀ e ∈ t.entries, e.ref = e₀.ref → e.isStored = true →
      e.shown t.db name = .null ∨ ∃ i, e.shown t.db name = .int i := by
    intro t ht e he href hst
    have hsaved := ht.saved e he
    obtain ⟨j, row, hj, hrow, -⟩ := hsaved.row (hsaved.stored hst)
    rw [Entry.shown_eq hj hrow]
    have hmodel := Entry.model_of_frame (ht.frame_eq hs he he₀ href)
    exact (ht.sound.reference_cell hp hsaved.model hrow
      (hmodel ▸ (hspec.reference name hkind).2)).imp_right fun h => h.imp fun _ h => h.1
  have hself : ∀ P : Value → Prop,
      Takes (fun t => t.committed = s.committed)
        (fun t => c.Rewriting s t ∧ t.Shows e₀.ref name fun g u => g = some v ∧ P u)
        (fun t => c.Rewriting s t ∧ t.Shows e₀.ref name fun g u => g = some v ∧ P u)
        (referToAll (involvedRecords s) e₀.ref) := by
    intro P t ht
    refine ((hrefer t ht.1).and (keeps_referToAll_of
      (I := fun t => t.Shows e₀.ref name fun _ u => P u) (fun u column w hu => ?_) t
      fun e he href hst => (ht.2 e he href hst).2)).imp
        (fun _ u hu => ⟨hu.1.1, fun e he href hst => ⟨hu.1.2 e he href, hu.2.1 e he href hst⟩⟩)
        fun _ _ h => h.1
    intro e he href hst
    obtain ⟨e₁, he₁, ⟨-, rfl⟩ | ⟨-, rfl⟩⟩ := Session.mem_modify he
    · exact hu e₁ he₁ href hst
    · exact hu _ he₁ href hst
  have hpassing : ∀ P : Value → Prop, (∀ u, P u → u = .null ∨ ∃ i, u = .int i) → P v →
      c.Passing s (involvedRecords s) (fun t => t.committed = s.committed) fun t =>
        c.Rewriting s t ∧ t.Shows e₀.ref name fun g u => g = some v ∧ P u := fun P hP hPv =>
    passing_shows hp hs hes hK he₀ hx (fun _ ht => ht.committed) (hstep P hP hPv)
      fun _ => hself P
  have hI' := hpassing (fun u => u = .null ∨ ∃ i, u = .int i) (fun _ => id) hvalue
  have hJ := hpassing (· = v) (fun u hu => hu ▸ hvalue) rfl
  refine (takes_saveTables hp hs hes (passing hp hs hK hes fun _ ht => ht.committed) hI' hJ
    ⟨hmem, h.kept e₀ he₀, fun t ht => ?_, fun _ => ?_, fun h => ?_⟩ s (hs.rewriting hD)).imp
      (fun _ t ht e he href hst => (ht.2 e he href hst).2) fun _ _ h => h
  · exact (hrefer t ht).imp (fun _ u hu => ⟨hu.1, fun e he href hst =>
      ⟨hu.2 e he href, hshown u hu.1 e he href hst⟩⟩) fun _ _ h => h
  · exact takes_updateRow_and hp hs hes hK he₀ hx (fun _ ht => ht.committed) hmem hst
      (hstep _ (fun _ => id) hvalue) fun g u w hg hw => ⟨hg.1, hwrite u w hg.2 (hg.1 ▸ hw)⟩
  · rw [Entry.isStored_eq_false h] at hst
    cases hst

end

end Act

namespace Catalog

variable {c : Catalog} {D : Database} {K : Ref → String → Int → Prop} {r : Ref}
  {N : Ref → String → Prop} {G : Cells} {s t : Session} (hp : c.Plain) (hD : c.Sound D)
  (hpaired : c.Paired) (h : c.Aimed D K r N G (fun _ _ => G) s)

omit h in
/-- No record is still to be stored, so a session aims at the same when one is enrolled. -/
theorem Aimed.enrolling : c.Enrolling D (c.Aimed D K r N G fun _ _ => G) where
  drafts := fun h => h.toDrafts
  enroll := by
    intro x s h
    have hsame : ∀ order, (s.modify x fun e =>
        if e.phase = .fresh then { e with phase := .pending order } else e) = s := fun order => by
      have hid : (s.entries.map fun e => if e.ref == x then
          if e.phase = .fresh then { e with phase := .pending order } else e else e) =
            s.entries := by
        refine (List.map_congr_left fun e he => ?_).trans s.entries.map_id
        have hst := h.stored e he
        have hno : e.phase ≠ .fresh := fun hfresh => by simp [Entry.isStored, hfresh] at hst
        rw [if_neg hno, ite_self, id]
      unfold Session.modify
      rw [hid]
    unfold Act.enroll
    rw [Act.ends_modify, hsame]
    exact ⟨h, trivial⟩

include h

/-- If every record has in its row what it is to have there, so has the database. -/
theorem Aimed.cells_eq (ht : c.Rewriting s t) (hshown : ∀ e₀ ∈ s.entries, ∀ k,
    e₀.key = [.int k] → ∀ name x, e₀.model.column? name = some x →
      t.Shows e₀.ref name fun _ u => u = G e₀.model.rootTable name k) : t.db.cells = G := by
  funext table column j
  by_cases hno : ∀ e ∈ s.entries, e.model.rootTable = table → e.key = [.int j] →
      e.model.column? column = none
  · rw [ht.rest table column j hno, h.db]
    by_cases hheld : ∃ x, s.Holds x table j
    · obtain ⟨-, e, he, -, -, rfl, hk⟩ := hheld
      have hnone := hno e he rfl hk
      refine ((h.settles e he).kept j hk column (fun x hx => ?_) ?_).symm
      · rw [hnone] at hx
        cases hx
      · cases hg : e.given? column with
        | none => rfl
        | some v =>
          obtain ⟨x, hx, -⟩ := (h.draft e he).value _ (mem_of_given? hg)
          exact absurd (hx.symm.trans hnone) nofun
    · exact (h.rest table column j fun x hx => hheld ⟨x, hx⟩).symm
  · push Not at hno
    obtain ⟨e₀, he₀, rfl, hk, hcolumn⟩ := hno
    obtain ⟨x, hx⟩ := Option.ne_none_iff_exists'.1 hcolumn
    obtain ⟨e, he, hframe⟩ := ht.exists_written he₀
    have href := Entry.ref_of_frame hframe
    have hst : e.isStored = true :=
      (Session.isStored_congr (Entry.phase_of_frame hframe)).trans (h.stored e₀ he₀)
    have hkey : e.key = [.int j] := (ht.keyed e₀ he₀ e he href).trans hk
    have hcell := hshown e₀ he₀ j hk column x hx e he href hst
    rwa [Entry.shown_eq_cells hkey, Entry.model_of_frame hframe] at hcell

include hp hD hpaired

/-- A session that aims at some cells writes them. -/
theorem Aimed.yields : c.Yields s fun t => c.Rewriting s t ∧ t.db.cells = G where
  saving := fun _ ht => ht.1.toSaving
  unchanged := by
    intro hno
    refine ⟨h.toDrafts.rewriting hD, h.cells_eq (h.toDrafts.rewriting hD)
      fun e₀ he₀ k hk name x hx e he href _ => ?_⟩
    obtain rfl := Session.eq_of_ref_eq h.distinct he he₀ href
    have hmember := Entry.isMember_of_isStored (h.stored e he)
    have hsame := List.any_eq_false.1 hno e he
    simp only [hmember, Bool.true_and, Bool.not_eq_true, Bool.or_eq_false_iff, Entry.isChanged,
      Bool.not_eq_false', List.isEmpty_iff, List.any_eq_false] at hsame
    obtain ⟨-, hvalues, hlinks⟩ := hsame
    rw [h.db, Entry.shown_eq_cells hk, h.cell_kept hp hpaired he hk hx ?_ ?_]
    · rintro ⟨l, -, -, st, hget, hchanged⟩
      obtain ⟨⟨n, st'⟩, hfind, rfl⟩ := Option.map_eq_some_iff.1 hget
      exact absurd hchanged (by simpa using hlinks _ (List.mem_of_find?_eq_some hfind))
    · simp [Entry.given?, hvalues, Fields.get?]
  written := by
    have hs := h.toDrafts
    have hrewriting : Act.Ends (c.rootTables.forM (Act.saveTable (Act.involvedRecords s))) s
        (fun _ t => c.Rewriting s t) fun _ t => t.committed = s.committed :=
      (Act.keeps_saveTables hp hs (hs.writing_rewriting hp h.stored)
        (fun _ => Act.mem_of_involvedRecords) s (hs.rewriting hD)).imp (fun _ _ h => h.1)
          fun _ _ h => h.committed
    have hcells := Act.ends_forall (ι := { i : Entry × Int × String × MappedColumn //
        i.1 ∈ s.entries ∧ i.1.key = [.int i.2.1] ∧ i.1.model.column? i.2.2.1 = some i.2.2.2 })
      (Q := fun i _ t => t.Shows i.1.1.ref i.1.2.2.1 fun _ u =>
        u = G i.1.1.model.rootTable i.1.2.2.1 i.1.2.1)
      (hrewriting.imp (fun _ _ _ => trivial) fun _ _ h => h)
      fun i => by
        obtain ⟨⟨e₀, k, name, x⟩, he₀, hk, hx⟩ := i
        by_cases hmoved : e₀.Redirects name
        · exact Act.ends_redirected h hp hD hpaired he₀ hk hx hmoved
        · exact Act.ends_kept h hp hD hpaired he₀ hk hx hmoved
    exact (hrewriting.and hcells).imp (fun _ t ht => ⟨ht.1, h.cells_eq ht.1
      fun e₀ he₀ k hk name x hx => ht.2 ⟨(e₀, k, name, x), he₀, hk, hx⟩⟩) fun _ _ h => h.1

end Catalog

end Hypermedia
