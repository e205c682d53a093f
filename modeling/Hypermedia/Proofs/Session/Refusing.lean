import Hypermedia.Proofs.Session.Removing

/-!
# Refused removals

A record is bound if a row of another record refers to it through a column that must not be
empty (`Catalog.Binds`). Removing it would empty the column, so the removal fails; what is
proved here is that it fails for this reason and no other. Until the rows are written nothing
fails, and then the only records that are written are members of the one that is to be deleted,
with nothing but empty cells, so only a constraint of the database stops the writing
(`Act.constrained_saveTables`). A circle between records of one table is another fault;
the removal of records of a flat model (`Catalog.isFlat`) cannot lead to one.
-/

namespace Hypermedia

/-- The fault is that a constraint of the database is violated. -/
def Fault.IsConstraint (f : Fault) : Prop := ∃ text, f = .store (.constraint text)

/-! ## What the database refuses -/

theorem Row.get_eq_null {cells : Row} (h : ∀ x ∈ cells, x.2 = .null) (name : String) :
    Row.get cells name = .null := by
  by_cases hmem : name ∈ Row.names cells
  · exact h _ (Row.get_mem hmem)
  · unfold Row.get Fields.get?
    rw [List.find?_eq_none.2 fun x hx hname => hmem (List.mem_map.2 ⟨x, hx, by simpa using hname⟩)]
    rfl

theorem Table.isConstraint_of_check {t : Table} {others : List Row} {r : Row} {f : Fault}
    (h : t.check others r = .error f) : f.IsConstraint := by
  unfold check at h
  dsimp only at h
  split at h
  · exact ⟨_, (Except.error.inj h).symm⟩
  · split at h
    · exact ⟨_, (Except.error.inj h).symm⟩
    · cases h

namespace Catalog

variable {c : Catalog} {D db : Database} {r : Ref} {root : String} {k : Int} {s₀ s : Session}

/-- Only a constraint stops cells of a row from being emptied. -/
theorem Sound.isConstraint_of_update (h : c.Sound db) (hp : c.Plain) {name : String}
    {row cells : Row} (hrow : db.row? name k = some row) (hnull : ∀ x ∈ cells, x.2 = .null)
    {f : Fault}
    (hupd : db.update name [.int k] cells = .error f) : f.IsConstraint := by
  obtain ⟨t, ht, -, -⟩ := h.row?_eq_some.1 hrow
  obtain ⟨stored, hstored⟩ : ∃ stored, t.storeCells cells = .ok stored := by
    refine exists_mapM fun x hx => ⟨(x.name, .null), ?_⟩
    have hsimple := h.simple hp (Database.table_mem ht).1 (List.mem_filter.1 hx).1
    rw [Row.get_eq_null hnull, ColumnType.store_null hsimple]
    rfl
  have hfind := (h.find? hp ht k).trans hrow
  simp only [Database.update, Table.update, ht, hstored, hfind, bind, Except.bind] at hupd
  cases hcheck : t.check (t.rows.filter fun r => t.keyOf r != [.int k]) (Row.setAll row stored) with
  | ok _ =>
    rw [hcheck] at hupd
    cases hupd
  | error g =>
    rw [hcheck] at hupd
    obtain rfl : g = f := Except.error.inj hupd
    exact Table.isConstraint_of_check hcheck

/-- A row of another record refers to the row of a number through a column that must not be
empty. -/
def Binds (c : Catalog) (D : Database) (root : String) (k : Int) : Prop :=
  ∃ t ∈ c.tables, ∃ x ∈ t.columns, x.isNullable = false ∧ x.refersTo = some (root, "id") ∧
    ∃ j row, D.row? t.name j = some row ∧ ¬(t.name = root ∧ j = k) ∧ Row.get row x.name = .int k

/-- A reference through a column that must not be empty stays until its row is deleted. -/
theorem Lacks.not_unreferred (h : c.Lacks root k D db) (hp : c.Plain) (hbinds : c.Binds D root k) :
    ¬c.Unreferred db root k := by
  intro hfree
  obtain ⟨t, ht, x, hx, hfull, hto, j, row₀, hrow₀, hne, hget⟩ := hbinds
  obtain ⟨row, hrow⟩ := Option.isSome_iff_exists.1 (h.rest t.name j (by simp [hrow₀]) hne)
  obtain ⟨row₁, hrow₁, hfade⟩ := h.fades t ht j row hrow
  obtain rfl := Option.some.inj (hrow₁.symm.trans hrow₀)
  rcases hfade x hx with hsame | ⟨-, -, hnull⟩
  · exact hfree t ht x hx _ hto rfl j row hrow hne (hsame.trans hget)
  · obtain ⟨u, hu, hmem, -⟩ := h.sound.row?_eq_some.1 hrow
    refine h.sound.ne_null_of_mem_rowsOf (Database.mem_rowsOf.2 ⟨u, hu, hmem⟩)
      (fun u hu hname => ?_) hnull
    obtain rfl := List.inj_on_of_nodup_map hp.table_names hu ht hname
    exact ⟨x, hx, rfl, hfull⟩

/-- Is no record of the model linked to a record of its own table, and none of those that it is
linked to? -/
def isFlat (c : Catalog) (m : Model) : Bool :=
  (m :: m.links.filterMap fun l => c.model? l.target).all fun n =>
    n.links.all fun l => (c.model? l.target).all fun t => t.rootTable != n.rootTable

theorem Plain.isKey_of_refers (hp : c.Plain) {m : Model} (hm : m ∈ c.models) {x : MappedColumn}
    (hx : x ∈ m.columns) {y : String × String} (hy : x.column.refersTo = some y) :
    x.column.isKey = false := by
  obtain ⟨t, ht, -, hshapes⟩ := hp.shapes m hm
  obtain ⟨z, hz, hshape⟩ := List.any_eq_true.1 (List.all_eq_true.1 hshapes x hx)
  simp only [beq_iff_eq, Column.shape, Prod.mk.injEq] at hshape
  exact hshape.2.2.1 ▸ (hp.reference t ht z hz y (hshape.2.2.2.2.trans hy)).2.2

/-- A record is known by its reference while the session writes. -/
theorem Saving.exists_known (h : c.Saving s₀ s) (hs₀ : c.Drafts D s₀) {e₀ : Entry}
    (he₀ : e₀ ∈ s₀.entries) : ∃ e, s.known? e₀.ref = some e ∧ e.frame = e₀.frame := by
  obtain ⟨e, he, hframe⟩ := h.exists_written he₀
  exact ⟨e, Entry.ref_of_frame hframe ▸ h.known?_eq hs₀ he, hframe⟩

end Catalog

/-! ## Actions that a constraint may stop -/

namespace Act

variable {α β : Type} {I : Session → Prop} {x : Act α} {P : α → Prop}

/-- Where a property of sessions holds, nothing but a constraint of the database stops the
action. -/
def Constrained (I : Session → Prop) (x : Act α) : Prop :=
  ∀ s, I s → Ends x s (fun _ _ => True) fun f _ => f.IsConstraint

theorem constrained_pure {a : α} : Constrained I (pure a) := fun _ _ => trivial

theorem Constrained.bind {f : α → Act β} (hx : Constrained I x) (hk : Keeps I x P)
    (hf : ∀ a, P a → Constrained I (f a)) : Constrained I (x >>= f) := by
  intro s hs
  rw [ends_bind]
  exact ((hx s hs).and (hk s hs)).imp (fun a t h => hf a h.2.2 t h.2.1) fun _ _ h => h.1

theorem constrained_ite {p : Prop} [Decidable p] {y : Act α} (hx : p → Constrained I x)
    (hy : ¬p → Constrained I y) : Constrained I (if p then x else y) := by
  split
  · next h => exact hx h
  · next h => exact hy h

theorem constrained_forM {f : α → Act Unit} {xs : List α}
    (h : ∀ a ∈ xs, Constrained I (f a)) (hk : ∀ a ∈ xs, Keeps I (f a) fun _ => True) :
    Constrained I (xs.forM f) := by
  induction xs with
  | nil => exact constrained_pure
  | cons x xs ih =>
    exact (h x List.mem_cons_self).bind (hk x List.mem_cons_self) fun _ _ =>
      ih (fun a ha => h a (List.mem_cons_of_mem _ ha)) fun a ha => hk a (List.mem_cons_of_mem _ ha)

variable {c : Catalog} {D : Database} {r : Ref} {root : String} {k : Int} {s₀ s : Session}

/-- A row is read while the session writes. -/
theorem ends_row? (hp : c.Plain) (h : c.Saving s₀ s) {m : Model} (hm : m ∈ c.models) {i : Int}
    {Q : Option Row → Session → Prop} {E : Fault → Session → Prop}
    (hQ : Q (s.db.row? m.rootTable i) s) : Ends (row? m.rootTable [.int i]) s Q E := by
  obtain ⟨t, ht, -⟩ := h.sound.table hp hm
  unfold row? Act.table
  simp only [ends_bind]
  refine ends_database h.failed ?_
  rw [ht, ends_ofExcept_ok]
  exact h.sound.find? hp ht i ▸ hQ

theorem ends_columnValue (hp : c.Plain) (h : c.Saving s₀ s) {e : Entry}
    (he : s.known? r = some e) {x : MappedColumn} (hx : x ∈ e.model.columns)
    {Q : Value → Session → Prop} {E : Fault → Session → Prop} (hQ : ∀ v, Q v s) :
    Ends (columnValue r x) s Q E := by
  have hsaved := h.saved e (Session.known?_mem he).1
  unfold columnValue
  rw [ends_bind]
  refine ends_entry he ?_
  split
  · exact hQ _
  · split
    · next hst =>
      obtain ⟨i, row, hi, hrow, -⟩ := hsaved.row (hsaved.stored hst)
      unfold storedValue
      rw [ends_bind, hp.columns _ hsaved.model x hx, hi]
      refine ends_row? hp h hsaved.model ?_
      rw [hrow]
      exact hQ _
    · exact hQ _

/-- A column that refers to other records is filled in. -/
theorem constrained_refer (hp : c.Plain) (hI : ∀ {s}, I s → c.Saving s₀ s)
    (hs₀ : c.Drafts D s₀) {e₀ : Entry} (he₀ : e₀ ∈ s₀.entries) {column table : String}
    (hrefers : e₀.model.refers column table = true) (v : Value) :
    Constrained I (refer e₀.ref column v) := by
  intro s hs
  have h := hI hs
  obtain ⟨e, he, hframe⟩ := h.exists_known hs₀ he₀
  obtain ⟨x, hx, hto⟩ := (Option.any_eq_true _ _).1 (Entry.model_of_frame hframe ▸ hrefers)
  have hmem := List.mem_of_find?_eq_some hx
  have hkey := hp.isKey_of_refers (h.saved e (Session.known?_mem he).1).model hmem
    (by simpa using hto)
  unfold refer
  rw [ends_bind]
  refine ends_entry he ?_
  rw [hx, ends_bind]
  refine ends_columnValue hp h he hmem fun old => ?_
  rw [hkey]
  trivial

/-! ## Writing what a removal changes -/

/-- No record of a calm session is written for its own sake. -/
theorem not_isDirty (h : s.Calm) {e : Entry} (he : e ∈ s.entries) : isDirty e = false := by
  cases hmember : e.isMember with
  | false => simp [isDirty, hmember]
  | true =>
    obtain ⟨hpending, hchanged⟩ := h e he hmember
    simp [isDirty, hpending, hchanged]

section

variable (hp : c.Plain) (hD : c.Sound D) (hs₀ : c.Dooming D r root k s₀) {es : List Entry}
  (hes : ∀ e ∈ es, e ∈ s₀.entries ∧ e.isMember = true)

include hp hD hs₀ hes

theorem constrained_referToAll {e₀ : Entry} (he₀ : e₀ ∈ es) :
    Constrained (c.Fading root k s₀) (referToAll es e₀.ref) := by
  have hW := hs₀.writing_fading hp hD
  obtain ⟨hmem₀, hmember₀⟩ := hes e₀ he₀
  have hdraft := hs₀.draft e₀ hmem₀
  refine Constrained.bind ?_ (keeps_unrefer hp hs₀.toDrafts hW hes he₀) fun _ _ =>
    Constrained.bind ?_ (keeps_referToOwners hp hs₀.toDrafts hW hes he₀) fun _ _ => ?_
  · have hkeeps : ∀ owner ∈ es.filter Entry.isDoomed, ∀ p ∈ memberLinks owner, ∀ b : Bool,
        Keeps (c.Fading root k s₀)
          (if !p.1.cascades && (owner.linkState p.1.name).involved.contains e₀.ref && b then
            refer e₀.ref p.2 .null else pure ()) fun _ => True :=
      fun owner ho p hmem _ => keeps_unreferLink hp hs₀.toDrafts hW hes he₀ ho hmem
    refine constrained_forM (fun owner ho => constrained_forM (fun p hmem => ?_)
      fun p hmem => hkeeps owner ho p hmem _) fun owner ho => keeps_forM fun p hmem =>
        hkeeps owner ho p hmem _
    refine constrained_ite (fun hcond => ?_) fun _ => constrained_pure
    simp only [Bool.and_eq_true, List.contains_iff_mem] at hcond
    exact constrained_refer hp Catalog.Fading.toSaving hs₀.toDrafts hmem₀
      (hp.refersTo_of_memberLink (hs₀.draft owner (hes owner (List.mem_filter.1 ho).1).1) hmem
        (LinkState.mem_refs_of_involved hcond.1.2) (hdraft.model?_eq hp)).2 _
  · intro s hs
    obtain ⟨e, he, -⟩ := hs.exists_known hs₀.toDrafts hmem₀
    unfold referToOwners
    rw [ends_bind]
    refine ends_entry he ?_
    rw [List.filter_eq_nil_iff.2 fun o ho h => by simp [not_isDirty hs₀.calm (hes o ho).1] at h]
    trivial
  · intro s hs
    obtain ⟨e, he, hframe⟩ := hs.exists_known hs₀.toDrafts hmem₀
    obtain ⟨hpending, hchanged⟩ := hs₀.calm e₀ hmem₀ hmember₀
    have hpending : e.isPending = false := by
      rwa [Entry.isPending, Entry.phase_of_frame hframe]
    unfold referToOthers
    rw [ends_bind]
    refine ends_entry he ?_
    refine ends_forM (I := fun _ => True) trivial fun l _ t _ => ?_
    split
    · next column state hc hst =>
      obtain ⟨⟨n, st⟩, hfind, rfl⟩ := Option.map_eq_some_iff.1 hst
      have hmem := Entry.links_of_frame hframe ▸ List.mem_of_find?_eq_some hfind
      simp only [Entry.isChanged, Bool.or_eq_false_iff, List.any_eq_false] at hchanged
      rw [if_neg (by simpa [hpending] using hchanged.2 _ hmem)]
      trivial
    · trivial

omit hD in
theorem constrained_updateRow {e₀ : Entry} (he₀ : e₀ ∈ es) (hst : e₀.isStored = true) :
    Constrained (c.Fading root k s₀) (updateRow e₀.model.rootTable e₀.ref) := by
  intro s hs
  obtain ⟨hmem₀, hmember₀⟩ := hes e₀ he₀
  obtain ⟨e, he, hframe⟩ := hs.exists_known hs₀.toDrafts hmem₀
  obtain ⟨hmem, -⟩ := Session.known?_mem he
  have hsaved := hs.saved e hmem
  have hmember : e.isMember = true := by
    rwa [Entry.isMember, Entry.phase_of_frame hframe]
  obtain ⟨i, row, hi, hrow, -⟩ := hsaved.row
    (hsaved.stored ((Session.isStored_congr (Entry.phase_of_frame hframe)).trans hst))
  unfold updateRow
  rw [ends_bind]
  refine ends_entry he ?_
  rw [ends_bind, hi, ← Entry.model_of_frame hframe]
  refine ends_row? hp hs.toSaving hsaved.model ?_
  rw [hrow]
  dsimp only
  split
  · trivial
  · rw [ends_bind]
    refine ends_database hs.failed ?_
    cases hupd : s.db.update e.model.rootTable [.int i]
        (changedCells e e.model.rootTable row) with
    | ok db' => trivial
    | error f =>
      refine hs.sound.isConstraint_of_update hp hrow (fun x hx => ?_) hupd
      obtain ⟨y, -, hy⟩ := List.mem_filterMap.1 hx
      split at hy
      · next v hv =>
        split at hy
        · cases hy
        · cases hy
          exact (hs.nulls e hmem hmember _ (Catalog.mem_of_given? hv)).1
      · cases hy

theorem constrained_saveRows {stored new : List Entry} {table : String}
    (hstored : ∀ e ∈ stored, e ∈ es ∧ e.isStored = true)
    (hnew : ∀ e ∈ new, e ∈ es ∧ e.isPending = true) :
    Constrained (c.Fading root k s₀) (saveRows stored new table) := by
  have hW := hs₀.writing_fading hp hD
  have htable : ∀ e ∈ es, e.model.tables.contains table = true → table = e.model.rootTable := by
    intro e he h
    simpa [hp.tables_eq _ (hs₀.draft e (hes e he).1).model] using h
  have hnone : new = [] := List.eq_nil_iff_forall_not_mem.2 fun e he => by
    obtain ⟨he, hpending⟩ := hnew e he
    simp [(hs₀.calm e (hes e he).1 (hes e he).2).1] at hpending
  subst hnone
  refine Constrained.bind (P := fun _ => True) (constrained_forM (fun e he => ?_) fun e he => ?_)
    (keeps_forM fun e he => ?_) fun _ _ => constrained_pure
  all_goals
    obtain ⟨he, hrow⟩ := List.mem_filter.1 he
    obtain ⟨he, hst⟩ := hstored e he
    rw [htable e he hrow]
  · exact constrained_updateRow hp hs₀ hes he hst
  all_goals exact keeps_updateRow hp hs₀.toDrafts hW.toRowWriting hes he hst

theorem constrained_saveLevel {level : List Ref} (hlevel : ∀ r ∈ level, ∃ e ∈ es, e.ref = r) :
    Constrained (c.Fading root k s₀) (saveLevel es level) := by
  have hW := hs₀.writing_fading hp hD
  have hrefer : ∀ r ∈ level, Keeps (c.Fading root k s₀) (referToAll es r) fun _ => True := by
    intro r hr
    obtain ⟨e, he, rfl⟩ := hlevel r hr
    exact keeps_referToAll hp hs₀.toDrafts hW hes he
  have hspec : ∀ {p : Entry → Bool} {le : Entry → Entry → Bool} {e : Entry},
      e ∈ ((es.filter fun e => level.contains e.ref && !e.isDoomed).filter p).mergeSort le →
        e ∈ es ∧ p e = true := fun h => ⟨(mem_level.1 h).1, (mem_level.1 h).2.2.2⟩
  refine Constrained.bind (constrained_forM (fun r hr => ?_) hrefer) (keeps_forM hrefer)
    fun _ _ => constrained_forM (fun table _ => ?_) fun table _ => ?_
  · obtain ⟨e, he, rfl⟩ := hlevel r hr
    exact constrained_referToAll hp hD hs₀ hes he
  · exact constrained_saveRows hp hD hs₀ hes (fun _ => hspec) fun _ => hspec
  · exact keeps_saveRows hp hs₀.toDrafts hW.toRowWriting hes (fun _ => hspec) fun _ => hspec

end

/-! ## Levels without edges -/

theorem exists_levels {edges : List (Ref × Ref)} (h : edges = []) {todo : List Ref} (fuel : Nat)
    (hfuel : todo.length ≤ fuel) : ∃ groups, levels edges fuel todo = .ok groups := by
  subst h
  cases todo with
  | nil => exact ⟨[], by cases fuel <;> rfl⟩
  | cons r todo =>
    cases fuel with
    | zero => cases hfuel
    | succ fuel =>
      refine ⟨[r :: todo], ?_⟩
      have hnone : ((r :: todo).filter fun x => !(r :: todo).contains x) = [] :=
        List.filter_eq_nil_iff.2 fun x hx h => by
          rw [List.contains_iff_mem.2 hx] at h
          cases h
      simp only [levels, List.any_nil, Bool.not_false, List.filter_true, hnone]
      cases fuel <;> rfl

/-- The records that a removal writes are of a model without links to its own table. -/
theorem edges_eq_nil (hp : c.Plain) (hs₀ : c.Dooming D r root k s₀) {m : Model}
    (hm : c.model? r.model = some m) (hflat : c.isFlat m = true) (table : String) :
    edges ((involvedRecords s₀).filter fun e => e.model.rootTable == table) = [] := by
  have hmodel : ∀ e ∈ s₀.entries, e.isDoomed = true → e.model = m := by
    intro e he hdoomed
    have hmodel := (hs₀.draft e he).model?_eq hp
    rw [hs₀.only e he hdoomed, hm] at hmodel
    exact (Option.some.inj hmodel).symm
  -- Each of them is the one that is to be deleted or a member of it.
  have hmodels : ∀ e ∈ involvedRecords s₀, e.model ∈
      m :: m.links.filterMap fun l => c.model? l.target := by
    intro e he
    obtain ⟨hmem, hcond⟩ := List.mem_filter.1 he
    simp only [Bool.and_eq_true, Bool.or_eq_true, List.contains_iff_mem,
      not_isDirty hs₀.calm hmem, Bool.false_eq_true, or_false] at hcond
    rcases hcond.2 with hdoomed | htouched
    · exact List.mem_cons.2 (Or.inl (hmodel e hmem hdoomed))
    · obtain ⟨o, ho, hdep⟩ := List.mem_flatMap.1 htouched
      obtain ⟨⟨l, column⟩, hl, hin⟩ := List.mem_flatMap.1 hdep
      rw [not_isDirty hs₀.calm ho] at hin
      simp only [Bool.false_eq_true, if_false] at hin
      split at hin
      · next hdoomed =>
        split at hin
        · cases hin
        · have hl := (Catalog.mem_memberLinks.1 hl).1
          have htarget :=
            (hs₀.draft o ho).model_of_refs hp hl _ (LinkState.mem_refs_of_involved hin)
          refine List.mem_cons_of_mem _ (List.mem_filterMap.2 ⟨l, hmodel o ho hdoomed ▸ hl, ?_⟩)
          rw [← htarget]
          exact (hs₀.draft e hmem).model?_eq hp
      · cases hin
  have hnone : ∀ e ∈ involvedRecords s₀, e.model.rootTable = table → ∀ l ∈ e.model.links,
      ((e.linkState l.name).involved.filter fun x =>
        ((involvedRecords s₀).filter fun e => e.model.rootTable == table).any fun e' =>
          e'.ref == x && e'.model.rootTable == e.model.rootTable) = [] := by
    intro e he hroot l hl
    refine List.filter_eq_nil_iff.2 fun x hx hany => ?_
    obtain ⟨e', he', hcond⟩ := List.any_eq_true.1 hany
    simp only [Bool.and_eq_true, beq_iff_eq] at hcond
    obtain ⟨rfl, hroot'⟩ := hcond
    have hdraft := hs₀.draft e (mem_of_involvedRecords he).1
    have hdraft' := hs₀.draft e' (mem_of_involvedRecords (List.mem_filter.1 he').1).1
    have htarget := hdraft.model_of_refs hp hl _ (LinkState.mem_refs_of_involved hx)
    have hlinks := List.all_eq_true.1 (List.all_eq_true.1 hflat e.model (hmodels e he)) l hl
    rw [← htarget, hdraft'.model?_eq hp] at hlinks
    simp [hroot'] at hlinks
  refine List.flatMap_eq_nil_iff.2 fun e he => List.flatMap_eq_nil_iff.2 fun l hl => ?_
  obtain ⟨he, hroot⟩ := List.mem_filter.1 he
  rw [hnone e he (by simpa using hroot) l hl]
  cases l.kind <;> simp

/-- Only a constraint of the database stops the writing of what the removal of a record of a flat
model changes. -/
theorem constrained_saveTables (hp : c.Plain) (hD : c.Sound D) (hs₀ : c.Dooming D r root k s₀)
    {m : Model} (hm : c.model? r.model = some m) (hflat : c.isFlat m = true) :
    Constrained (c.Fading root k s₀) (c.rootTables.forM (saveTable (involvedRecords s₀))) := by
  have hW := hs₀.writing_fading hp hD
  have hes := fun e (he : e ∈ involvedRecords s₀) => mem_of_involvedRecords he
  refine constrained_forM (fun table _ => ?_) fun table _ =>
    keeps_saveTable hp hs₀.toDrafts hW hes table
  let own := (involvedRecords s₀).filter fun e => e.model.rootTable == table
  obtain ⟨groups, hgroups⟩ :=
    exists_levels (edges_eq_nil hp hs₀ hm hflat table) own.length
      (Nat.le_of_eq (List.length_map Entry.ref))
  have hlevel : ∀ g ∈ groups, ∀ r ∈ g, ∃ e ∈ involvedRecords s₀, e.ref = r := fun g hg r hr =>
    ((mem_levels hgroups r).1 ⟨g, hg, hr⟩).imp fun e h => ⟨h.1, h.2.2⟩
  unfold saveTable
  dsimp only
  rw [hgroups, ofExcept_ok, pure_bind]
  exact constrained_forM (fun g hg => constrained_saveLevel hp hD hs₀ hes (hlevel g hg))
    fun g hg => keeps_saveLevel hp hs₀.toDrafts hW hes (hlevel g hg)

/-! ## Refusing a removal -/

/-- The links of a record that is to be deleted are read without a fault. -/
theorem ends_readKnown (hp : c.Plain) (hD : c.Sound D) {l : Link} (hl : c.Has r l)
    (hs : c.Dooming D r root k s) :
    Ends (readKnown c r l) s (fun _ t => c.Dooming D r root k t) fun _ _ => False := by
  refine (reads_readKnown (Catalog.Dooming.reading hp hD r root k) hp hD hl hs).imp
    (fun _ _ h => h.1) fun _ _ h => ?_
  obtain ⟨e, he, rfl, -⟩ := hs.known
  exact absurd (h.2.2.symm.trans (hs.known?_eq he)) nofun

/-- The removal of a record to which a column that must not be empty refers is not written. -/
theorem ends_write_bound (hp : c.Plain) (hD : c.Sound D) (hs₀ : c.Dooming D r root k s₀)
    {m : Model} (hm : c.model? r.model = some m) (hflat : c.isFlat m = true)
    (hbinds : c.Binds D root k) :
    Ends (write c) s₀ (fun _ _ => False) fun f _ => f.IsConstraint := by
  unfold write
  rw [ends_bind]
  refine ends_doomOrphans hs₀.toDrafts ?_
  have hreading : Ends (readDoomed c) s₀ (fun _ t => c.Dooming D r root k t) fun _ _ => False := by
    unfold readDoomed
    rw [ends_bind, ends_get]
    refine ends_forM hs₀ fun e he t ht => ends_forM ht fun l hl u hu => ?_
    obtain ⟨he, hdoomed⟩ := List.mem_filter.1 he
    have href := hs₀.only e he hdoomed
    rw [href]
    exact ends_readKnown hp hD ⟨e.model, href ▸ (hs₀.draft e he).model?_eq hp, hl⟩ hu
  rw [ends_bind]
  refine (hreading.and (ends_readMembers hp hD hs₀ hm)).imp (fun _ s ⟨_, hs, hread⟩ => ?_)
    fun _ _ h => h.1.elim
  rw [ends_bind, ends_get]
  dsimp only
  rw [ends_bind]
  obtain ⟨e, he, href, hdoomed, hst, rfl, hk⟩ := hs.known
  have hmodel : e.model = m := by
    have h := (hs.draft e he).model?_eq hp
    rw [href, hm] at h
    exact (Option.some.inj h).symm
  refine ((constrained_saveTables hp hD hs hm hflat s (hs.fading_self hD)).and
    (ends_freed hp hD hs he href hdoomed hst hk (hmodel ▸ hread))).imp
      (fun _ t ⟨_, ht⟩ => ?_) fun _ _ h => h.1
  exact (ht.lacks.not_unreferred hp (hs.db ▸ hbinds) ht.free).elim

/-- A record of a flat model to which a column that must not be empty refers is not removed, and
nothing is changed. -/
theorem ends_destroy_bound (hp : c.Plain) (hD : c.Sound D) {H : Ref → Prop} (hs : c.Quiet D s₀)
    (hkept : c.Edited D H s₀) (hholds : s₀.Holds r root k) {m : Model}
    (hm : c.model? r.model = some m) (hflat : c.isFlat m = true) (hbinds : c.Binds D root k) :
    Ends (destroy c r) s₀ (fun b t => b = false ∧ t.committed = D) fun _ _ => False := by
  have hdestroy := ends_destroy hp hD hs hkept r
  have hbound : Ends (destroy c r) s₀ (fun b _ => b = false) fun _ _ => False := by
    unfold destroy
    rw [ends_bind]
    refine (ends_delete_held hp hD hs hkept hholds).imp (fun _ t ht => ?_) fun _ _ h => h
    have hchanges : hasChanges t = true := by
      obtain ⟨e, he, -, hdoomed, hst, -⟩ := ht.known
      refine List.any_eq_true.2 ⟨e, he, ?_⟩
      cases hph : e.phase <;> simp_all [Entry.isStored, Entry.isMember]
    rw [ends_tryCatch, ends_bind]
    unfold commit flush
    simp only [ends_bind, ends_get, hchanges, Bool.not_true, Bool.false_eq_true, if_false]
    refine ends_database ht.failed ?_
    rw [ends_tryCatch]
    refine (ends_write_bound hp hD ht hm hflat hbinds).imp (fun _ _ h => h.elim) ?_
    rintro _ u ⟨text, rfl⟩
    exact rfl
  refine (hbound.and hdestroy).imp (fun b t ⟨hb, ht⟩ => ⟨hb, ?_⟩) fun _ _ h => h.1
  subst hb
  exact ht

end Act

end Hypermedia
