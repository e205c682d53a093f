import Hypermedia.Proofs.Session.Steering

/-!
# Giving a link to one another record

When a link to one is given another record, the lists at both ends of the change follow: the record
leaves the list of the one that the link led to and joins that of the one that it leads to now. What
the link led to is looked up without reading, so it may not be known (`Session.Peeks`); then the
list that the record leaves was not read either and is brought up to date when it is.

The cell that the link fills is aimed at first. What the lists tell is still of the old cell then
(`Catalog.awaiting`), and each step brings one of them up to the new one, until all links tell what
is aimed at (`Act.ends_setOne`).
-/

namespace Hypermedia

/-- A link to one that leads elsewhere; `old` is what it led to if that was not read. -/
def LinkState.leading (old : Option (List Ref)) (new : List Ref) : LinkState → LinkState
  | .read before _ => .read before new
  | .unread _ _ => .read old new

namespace Session

/-- What is known of the record that a cell with `v` refers to. -/
structure Peeks (s : Session) (root : String) (v : Value) (old : Option (List Ref)) : Prop where
  names : ∀ b, old = some b → s.Names root b v
  unknown : old = none → ∃ k, v = .int k ∧ ∀ o, ¬s.Holds o root k

variable {s : Session} {x y : Ref} {f : Entry → Entry} {root : String} {k : Int}

theorem holds_modify_iff (hf : ∀ e, (f e).ref = e.ref ∧ (f e).model = e.model ∧
    (f e).phase = e.phase ∧ (f e).key = e.key) :
    (s.modify x f).Holds y root k ↔ s.Holds y root k := by
  refine ⟨?_, Holds.modify hf⟩
  rintro ⟨e, he, rfl, hst, hroot, hkey⟩
  obtain ⟨e₀, he₀, ⟨-, rfl⟩ | ⟨-, rfl⟩⟩ := mem_modify he
  · obtain ⟨href, hmodel, hphase, hk⟩ := hf e₀
    exact ⟨e₀, he₀, href.symm, (isStored_congr hphase).symm.trans hst, hmodel ▸ hroot,
      hk.symm.trans hkey⟩
  · exact ⟨_, he₀, rfl, hst, hroot, hkey⟩

theorem Peeks.eq_or {v : Value} {old : Option (List Ref)} (h : s.Peeks root v old) :
    ((old = none ∨ old = some []) ∧ ∀ o k, s.Holds o root k → v ≠ .int k) ∨
      ∃ o k, old = some [o] ∧ v = .int k ∧ s.Holds o root k := by
  cases old with
  | none =>
    obtain ⟨k, rfl, hno⟩ := h.unknown rfl
    exact Or.inl ⟨Or.inl rfl, fun o i ho hi => hno o (Value.int.inj hi ▸ ho)⟩
  | some b =>
    rcases (h.names b rfl).eq_or with ⟨rfl, rfl⟩ | ⟨o, k, rfl, hk, ho⟩
    · exact Or.inl ⟨Or.inr rfl, fun _ _ _ => nofun⟩
    · exact Or.inr ⟨o, k, rfl, hk, ho⟩

/-- The record that is known is the one of the number. -/
theorem Peeks.mem_iff {c : Catalog} {D : Database} (hs : c.Drafts D s) {v : Value}
    {old : Option (List Ref)} (h : s.Peeks root v old) :
    x ∈ old.getD [] ↔ ∃ k, s.Holds x root k ∧ v = .int k := by
  rcases h.eq_or with ⟨hold, hno⟩ | ⟨o, k, rfl, rfl, ho⟩
  · have hnil : old.getD [] = [] := by rcases hold with rfl | rfl <;> rfl
    rw [hnil]
    exact ⟨nofun, fun ⟨i, hi, hv⟩ => absurd hv (hno x i hi)⟩
  · exact (Names.one ho).mem_iff hs

theorem Peeks.modify (hf : ∀ e, (f e).ref = e.ref ∧ (f e).model = e.model ∧
    (f e).phase = e.phase ∧ (f e).key = e.key) {v : Value} {old : Option (List Ref)}
    (h : s.Peeks root v old) : (s.modify x f).Peeks root v old where
  names := fun b hb => (h.names b hb).mono fun _ _ _ => Holds.modify hf
  unknown := fun hnone => (h.unknown hnone).imp fun _ hk =>
    ⟨hk.1, fun o ho => hk.2 o ((holds_modify_iff hf).1 ho)⟩

end Session

namespace Catalog

variable {c : Catalog} {D : Database} {r : Ref} {G : Cells} {s : Session} {m t : Model}
  {l back : Link} {column : String} (hpair : c.Pair m l column t back) {e : Entry} {st : LinkState}

include hpair

/-- What a list of a pair tells. -/
theorem Pair.tells_back {k : Int} (hkey : e.key = [.int k])
    (hcounts : s.Counts m.rootTable k (D.cells m.rootTable column) (G m.rootTable column) st)
    (hmisses : e.ref = r →
      s.Misses m.rootTable k (D.cells m.rootTable column) (G m.rootTable column) st) :
    c.Tells D G r s e back st := by
  have hsame : ∀ y m' k', back.kind = .members y → c.model? back.target = some m' →
      e.key = [.int k'] → y = column ∧ m' = m ∧ k' = k := by
    intro y m' k' hy hm' hk'
    refine ⟨?_, Option.some.inj (hm'.symm.trans hpair.backTarget), by simpa [hkey] using hk'.symm⟩
    simpa [hpair.backKind] using hy.symm
  refine ⟨fun y _ _ hy => ?_, fun y m' k' hy hm' hk' => ?_, fun href y m' k' hy hm' hk' => ?_⟩
  · simp [hpair.backKind] at hy
  · obtain ⟨rfl, rfl, rfl⟩ := hsame y m' k' hy hm' hk'
    exact hcounts
  · obtain ⟨rfl, rfl, rfl⟩ := hsame y m' k' hy hm' hk'
    exact hmisses href

/-- What a link to one of a pair tells. -/
theorem Pair.tells_one (hm : e.model = m) {j : Int} (hkey : e.key = [.int j])
    (haims : s.Aims t.rootTable (D.cells m.rootTable column j) (G m.rootTable column j) st) :
    c.Tells D G r s e l st := by
  refine ⟨fun y t' j' hy ht' hj' => ?_, fun y _ _ hy => ?_, fun _ y _ _ hy => ?_⟩
  · obtain rfl : y = column := by simpa [hpair.kind] using hy.symm
    obtain rfl := Option.some.inj (ht'.symm.trans hpair.target)
    obtain rfl : j' = j := by simpa [hkey] using hj'.symm
    exact hm ▸ haims
  · simp [hpair.kind] at hy
  · simp [hpair.kind] at hy

theorem Pair.name_ne (hp : c.Plain) (h : t = m) : back.name ≠ l.name := by
  intro hname
  have heq := hp.link_eq_of_name hpair.mem (h ▸ hpair.backLink) hpair.link hname
  have hkind := hpair.backKind
  rw [heq, hpair.kind] at hkind
  cases hkind

/-- The link to one and the list are not the same link of a record. -/
theorem Pair.ne_of_holds (hp : c.Plain) (hs : c.Drafts D s) {x o : Ref} {j k : Int}
    (hx : s.Holds x m.rootTable j) (ho : s.Holds o t.rootTable k) :
    ¬(o = x ∧ back.name = l.name) := by
  rintro ⟨rfl, hname⟩
  obtain ⟨e, he, href, hmodel, -⟩ := hs.entry_of_holds hp hpair.alone hpair.mem hx
  obtain ⟨e', he', href', hmodel', -⟩ := hs.entry_of_holds hp hpair.backAlone hpair.backMem ho
  obtain rfl := Session.eq_of_ref_eq hs.distinct he he' (href.trans href'.symm)
  exact hpair.name_ne hp (hmodel'.symm.trans hmodel) hname

end Catalog

namespace Act

open Catalog

variable {c : Catalog} {D : Database} {K : Ref → String → Int → Prop} {r : Ref}
  {N : Ref → String → Prop} {G : Cells} {H : Ref → String → Cells} {s : Session}
  {E : Fault → Session → Prop}

/-! ## One side of a link -/

theorem pull_eq (o : Ref) (l : Link) (x : Ref) : pull o l x = (do
    modifyEntry o fun e => e.setLink l.name ((e.linkState l.name).without x)
    markLost l x) := by
  unfold pull LinkState.without
  rfl

theorem push_eq (o : Ref) (l : Link) (x : Ref) : push o l x = (do
    modifyEntry o fun e => e.setLink l.name ((e.linkState l.name).having x)
    markKept l x) := by
  unfold push LinkState.having
  rfl

theorem putOne_eq (c : Catalog) (x : Ref) (l : Link) (new : Option Ref) : putOne c x l new = (do
    let old ← peek c x l
    modifyEntry x fun e => e.setLink l.name ((e.linkState l.name).leading old new.toList)
    pure old) := by
  unfold putOne LinkState.leading
  rfl

theorem ends_markKept (h : c.Aimed D K r N G H s) (l : Link) (x : Ref) :
    Ends (markKept l x) s (fun _ u => c.Aimed D K r N G H u) E :=
  h.alter (fun _ => ⟨rfl, rfl, rfl, rfl, rfl, rfl, rfl⟩) fun _ he _ =>
    { he with lost := fun l hl => he.lost l (List.mem_filter.1 hl).1 }

theorem ends_markLost (h : c.Aimed D K r N G H s) {l : Link} (hl : l.owns = false) (x : Ref) :
    Ends (markLost l x) s (fun _ u => c.Aimed D K r N G H u) E := by
  unfold markLost
  simp only [hl, Bool.false_and, Bool.false_eq_true, if_false]
  refine h.alter (fun _ => ⟨rfl, rfl, rfl, rfl, rfl, rfl, rfl⟩) fun e he _ => { he with lost := ?_ }
  intro l' hl'
  rcases List.mem_cons.1 hl' with rfl | hl'
  · exact hl
  · exact he.lost l' (List.mem_filter.1 hl').1

variable {m t : Model} {l back : Link} {column : String} (hp : c.Plain)
  (hpair : c.Pair m l column t back)

include hp hpair

theorem owns_back : back.owns = false := by
  obtain ⟨_, -, hspec⟩ := hp.linkSpec hpair.backMem hpair.backLink
  exact hspec.owns

/-- A record is taken out of a list of another. -/
theorem ends_pull (h : c.Aimed D K r N G H s) {o x : Ref} {k j : Int}
    (ho : s.Holds o t.rootTable k) (hx : s.Holds x m.rootTable j) (hN : N o back.name)
    (hj : H o back.name m.rootTable column j = .int k) {w : Value} (hw : w ≠ .int k) :
    Ends (pull o back x) s (fun _ u => c.Aimed D K r N G
      (retold H o back.name ((H o back.name).put m.rootTable column j w)) u) E := by
  obtain ⟨e, he, rfl, hmodel, hkey, hst⟩ :=
    h.toDrafts.entry_of_holds hp hpair.backAlone hpair.backMem ho
  have hl : back ∈ e.model.links := hmodel ▸ hpair.backLink
  have htells := h.tells e he back hl
  have hcounts := htells.many column m k hpair.backKind hpair.backTarget hkey
  have hd := h.neat e he back hl hpair.backIsList hN
  have hsame : ∀ i, i ≠ j → (H e.ref back.name).put m.rootTable column j w m.rootTable column i =
      H e.ref back.name m.rootTable column i := fun i hi =>
    (H e.ref back.name).put_of_ne _ _ _ _ fun h => hi h.2.2
  have hself := (H e.ref back.name).put_self m.rootTable column j w
  have hset : s.modify e.ref (fun e => e.setLink back.name ((e.linkState back.name).without x)) =
      s.modify e.ref fun e' => e'.setLink back.name ((e.linkState back.name).without x) := by
    refine Session.modify_congr fun e' he' href => ?_
    obtain rfl := Session.eq_of_ref_eq h.distinct he' he href
    rfl
  rw [pull_eq, ends_bind, ends_modifyEntry, hset]
  refine ends_markLost (h.setLink hp he hl (hpair.tells_back hkey ?_ fun href => ?_)
    fun _ _ => hd.without x) (owns_back hp hpair) x
  · exact h.toDrafts.counts_without hx hj (hself.symm ▸ hw) hsame hcounts hd
  · exact h.toDrafts.misses_without hx hj (hself.symm ▸ hw) hsame hcounts
      (htells.misses href column m k hpair.backKind hpair.backTarget hkey) hd

/-- A record is put into a list of another. -/
theorem ends_push (h : c.Aimed D K r N G H s) {o x : Ref} {k j : Int}
    (ho : s.Holds o t.rootTable k) (hx : s.Holds x m.rootTable j) (hN : N o back.name)
    (hC : D.cells m.rootTable column j ≠ .int k)
    (hj : H o back.name m.rootTable column j ≠ .int k) :
    Ends (push o back x) s (fun _ u => c.Aimed D K r N G
      (retold H o back.name ((H o back.name).put m.rootTable column j (.int k))) u) E := by
  obtain ⟨e, he, rfl, hmodel, hkey, hst⟩ :=
    h.toDrafts.entry_of_holds hp hpair.backAlone hpair.backMem ho
  have hl : back ∈ e.model.links := hmodel ▸ hpair.backLink
  have htells := h.tells e he back hl
  have hcounts := htells.many column m k hpair.backKind hpair.backTarget hkey
  have hd := h.neat e he back hl hpair.backIsList hN
  have hsame : ∀ i, i ≠ j → (H e.ref back.name).put m.rootTable column j (.int k) m.rootTable
      column i = H e.ref back.name m.rootTable column i := fun i hi =>
    (H e.ref back.name).put_of_ne _ _ _ _ fun h => hi h.2.2
  have hself := (H e.ref back.name).put_self m.rootTable column j (.int k)
  have hset : s.modify e.ref (fun e => e.setLink back.name ((e.linkState back.name).having x)) =
      s.modify e.ref fun e' => e'.setLink back.name ((e.linkState back.name).having x) := by
    refine Session.modify_congr fun e' he' href => ?_
    obtain rfl := Session.eq_of_ref_eq h.distinct he' he href
    rfl
  rw [push_eq, ends_bind, ends_modifyEntry, hset]
  refine ends_markKept (h.setLink hp he hl (hpair.tells_back hkey ?_ fun href => ?_)
    fun _ _ => h.toDrafts.distinct_having hx hC hj hcounts hd) back x
  · exact h.toDrafts.counts_having hx hC hj hself hsame hcounts
  · exact h.toDrafts.misses_having hx hC hsame hcounts
      (htells.misses href column m k hpair.backKind hpair.backTarget hkey)

variable (hD : c.Sound D)

include hD

/-- What a link to one leads to is looked up without reading. -/
theorem ends_peek (h : c.Aimed D K r N G H s) {x : Ref} {j : Int}
    (hx : s.Holds x m.rootTable j) : Ends (peek c x l) s (fun old u => u = s ∧
      s.Peeks t.rootTable (H x l.name m.rootTable column j) old) E := by
  obtain ⟨e, he, rfl, hmodel, hkey, hst⟩ := h.toDrafts.entry_of_holds hp hpair.alone hpair.mem hx
  have hl : l ∈ e.model.links := hmodel ▸ hpair.link
  have hdraft := h.draft e he
  have hknown := h.toDrafts.known?_eq he
  have haims := (h.tells e he l hl).one column t j hpair.kind hpair.target hkey
  rw [hmodel] at haims
  unfold peek
  rw [ends_bind]
  refine ends_entry hknown ?_
  split
  · next before now hstate =>
    refine ⟨rfl, ?_, by simp⟩
    rintro b ⟨⟩
    exact haims.now before now hstate
  · next added removed hstate =>
    obtain ⟨rfl, rfl, hsame⟩ := haims.unread added removed hstate
    obtain ⟨y, hy, hto⟩ := (Option.any_eq_true _ _).1 hpair.refers
    have hto : y.column.refersTo = some (t.rootTable, "id") := by simpa using hto
    have hname : y.column.name = column := by simpa using List.find?_some hy
    rw [hpair.kind]
    dsimp only
    rw [hmodel, hy, hpair.target]
    dsimp only
    have hy' : e.model.column? column = some y := hmodel ▸ hy
    have hcell : e.cell D y.column.name = H e.ref l.name m.rootTable column j := by
      rw [hname, cell_eq_cells hkey (hdraft.given?_eq_none hp hy' (by simp [hto])), hmodel, hsame]
    rw [ends_bind]
    refine (reads_columnValue (Drafts.reading hp hD) hp hD hknown
      (List.mem_of_find?_eq_some hy') h.toDrafts).imp ?_ fun _ _ h => h.2.2.elim
    rintro v u ⟨-, -, rfl, rfl⟩
    rw [hcell]
    have hrefers : e.model.refers column t.rootTable = true := hmodel ▸ hpair.refers
    rw [hname] at hcell
    have hvalue := hdraft.reference_cell hp hD hrefers
    rw [hcell] at hvalue
    rcases hvalue with hnull | ⟨k, hk, -⟩
    · rw [hnull]
      refine ⟨rfl, ?_, by simp⟩
      rintro b ⟨⟩
      exact .nothing
    · rw [hk]
      change Ends (do
        let s ← get
        pure ((s.identified? t.rootTable [.int k]).map fun e => [e.ref])) u _ _
      rw [ends_bind, ends_get]
      refine ⟨rfl, fun b hb => ?_, fun hnone => ⟨k, rfl, fun o ho => ?_⟩⟩
      · obtain ⟨o, ho, rfl⟩ := Option.map_eq_some_iff.1 hb
        have hcond := List.find?_some ho
        simp only [Bool.and_eq_true, beq_iff_eq] at hcond
        have hmem := List.mem_of_find?_eq_some ho
        obtain ⟨i, -, hi, -⟩ := (h.draft o hmem).stored hcond.1.1
        obtain rfl : i = k := by simpa [hi] using hcond.2
        exact .one ⟨o, hmem, rfl, hcond.1.1, hcond.1.2, hi⟩
      · exact Session.not_holds_of_identified rfl (Option.map_eq_none_iff.1 hnone) ho

/-- A link to one is given another record, and what it led to is told. -/
theorem ends_putOne (h : c.Aimed D K r N G H s) {x : Ref} {j : Int}
    (hx : s.Holds x m.rootTable j) {new : Option Ref} {w : Value}
    (hnew : s.Names t.rootTable new.toList w) : Ends (putOne c x l new) s (fun old u =>
      u.Peeks t.rootTable (H x l.name m.rootTable column j) old ∧ c.Aimed D K r N G
        (retold H x l.name ((H x l.name).put m.rootTable column j w)) u) E := by
  rw [putOne_eq, ends_bind]
  refine (ends_peek hp hpair hD h hx).imp ?_ fun _ _ h => h
  rintro old u ⟨rfl, hpeeks⟩
  obtain ⟨e, he, rfl, hmodel, hkey, hst⟩ := h.toDrafts.entry_of_holds hp hpair.alone hpair.mem hx
  have hl : l ∈ e.model.links := hmodel ▸ hpair.link
  have haims := (h.tells e he l hl).one column t j hpair.kind hpair.target hkey
  rw [hmodel] at haims
  have hread : ∀ before : Option (List Ref),
      (∀ b, before = some b → u.Names t.rootTable b (D.cells m.rootTable column j)) →
      c.Tells D ((H e.ref l.name).put m.rootTable column j w) r u e l
        (.read before new.toList) := by
    refine fun before hbefore => hpair.tells_one hmodel hkey (Session.aims_read hbefore ?_)
    rwa [Cells.put_self]
  have hset : u.modify e.ref (fun e => e.setLink l.name
      ((e.linkState l.name).leading old new.toList)) =
      u.modify e.ref fun e' => e'.setLink l.name
        ((e.linkState l.name).leading old new.toList) := by
    refine Session.modify_congr fun e' he' href => ?_
    obtain rfl := Session.eq_of_ref_eq h.distinct he' he href
    rfl
  have htells : c.Tells D ((H e.ref l.name).put m.rootTable column j w) r u e l
      ((e.linkState l.name).leading old new.toList) := by
    cases hstate : e.linkState l.name with
    | read before now => exact hread before fun b hb => haims.before b now (hb ▸ hstate)
    | unread added removed =>
      exact hread old fun b hb => (haims.unread added removed hstate).2.2 ▸ hpeeks.names b hb
  rw [ends_bind, ends_modifyEntry, hset]
  refine ⟨Session.Peeks.modify ?_ hpeeks, h.setLink hp he hl htells fun hlist => ?_⟩
  · exact fun _ => ⟨rfl, rfl, rfl, rfl⟩
  · exact absurd hlist (by simp [hpair.isOne])

/-! ## Both sides of a link -/

omit hD in
theorem owns_one : l.owns = false := by
  obtain ⟨_, -, hspec⟩ := hp.linkSpec hpair.mem hpair.link
  exact hspec.owns

omit hp hpair hD in
/-- Records that are stored are not stored again. -/
theorem ends_cascade (h : c.Aimed D K r N G H s) {x y : Ref} {root root' : String} {j k : Int}
    (hx : s.Holds x root j) (hy : s.Holds y root' k) :
    Ends (cascade x y) s (fun _ u => u = s) E := by
  obtain ⟨e, he, rfl, -⟩ := hx
  obtain ⟨e', he', rfl, hst, -⟩ := hy
  have hmember : e'.isMember = true := Entry.isMember_of_isStored hst
  unfold cascade isMember
  simp only [ends_bind]
  refine ends_entry (h.toDrafts.known?_eq he) ?_
  rw [ends_pure]
  refine ends_entry (h.toDrafts.known?_eq he') ?_
  rw [ends_pure, hmember, Bool.not_true, Bool.and_false]
  exact rfl

omit hD in
/-- What a link to one no longer leads to loses the record from its list. -/
theorem ends_lose_one (h : c.Aimed D K r N G H s) {o x : Ref} {k j : Int}
    (ho : s.Holds o t.rootTable k) (hx : s.Holds x m.rootTable j) (hN : N o back.name)
    (hj : H o back.name m.rootTable column j = .int k) {w : Value} (hw : w ≠ .int k) :
    Ends (lose c x l o) s (fun _ u => c.Aimed D K r N G
      (retold H o back.name ((H o back.name).put m.rootTable column j w)) u) E := by
  unfold lose echoLoss release
  rw [hpair.inverse]
  dsimp only
  rw [if_pos hpair.backIsList, ends_bind]
  refine (ends_markLost h.counting (owns_one hp hpair) o).imp (fun _ u hu => ?_) fun _ _ h => h
  exact (ends_pull hp hpair hu (hu.holds _ _ _ ho) (hu.holds _ _ _ hx) hN hj hw).imp
    (fun _ _ hv => h.counted hv) fun _ _ h => h

omit hD in
/-- What a link to one leads to gets the record into its list. -/
theorem ends_keep_one (h : c.Aimed D K r N G H s) {o x : Ref} {k j : Int}
    (ho : s.Holds o t.rootTable k) (hx : s.Holds x m.rootTable j) (hN : N o back.name)
    (hC : D.cells m.rootTable column j ≠ .int k)
    (hj : H o back.name m.rootTable column j ≠ .int k) :
    Ends (keep c x l o) s (fun _ u => c.Aimed D K r N G
      (retold H o back.name ((H o back.name).put m.rootTable column j (.int k))) u) E := by
  unfold keep echoGain
  rw [hpair.inverse]
  dsimp only
  rw [if_pos hpair.backIsList, ends_bind]
  refine (ends_markKept h.counting l o).imp (fun _ u hu => ?_) fun _ _ h => h
  exact (ends_push hp hpair hu (hu.holds _ _ _ ho) (hu.holds _ _ _ hx) hN hC hj).imp
    (fun _ _ hv => h.counted hv) fun _ _ h => h

/-- What is not told yet of the lists of some records when a cell has changed. -/
def awaiting (G G' : Cells) (name : String) (os : List Ref) : Ref → String → Cells :=
  fun y n => if n = name ∧ y ∈ os then G else G'

omit hp hpair hD in
theorem awaiting_nil {G G' : Cells} {name : String} : awaiting G G' name [] = fun _ _ => G' := by
  funext y n
  simp [awaiting]

omit hp hpair hD in
theorem awaiting_of_mem {G G' : Cells} {name : String} {o : Ref} {os : List Ref} (h : o ∈ os) :
    awaiting G G' name os o name = G := if_pos ⟨rfl, h⟩

omit hp hpair hD in
theorem retold_awaiting {G G' : Cells} {name : String} {o : Ref} {os : List Ref} (h : o ∉ os) :
    retold (awaiting G G' name (o :: os)) o name G' = awaiting G G' name os := by
  funext y n
  by_cases hy : y = o ∧ n = name
  · obtain ⟨rfl, rfl⟩ := hy
    simp [awaiting, h]
  · rw [retold_of_ne hy]
    have hiff : (n = name ∧ y ∈ o :: os) ↔ (n = name ∧ y ∈ os) := by grind
    simp only [awaiting, hiff]

omit hD in
/-- What links tell that do not depend on a cell that changed. -/
theorem Aimed.bring (hpaired : c.Paired) {H' : Ref → String → Cells} {x : Ref} {j : Int}
    (h : c.Aimed D K r N G H s) (hx : s.Holds x m.rootTable j) (w : Value)
    (hH : ∀ y n, H' y n = H y n ∨ H' y n = (H y n).put m.rootTable column j w ∧
      ¬(y = x ∧ n = l.name) ∧ (n = back.name → ∀ k, s.Holds y t.rootTable k →
        H y n m.rootTable column j ≠ .int k ∧ w ≠ .int k)) : c.Aimed D K r N G H' s := by
  refine h.retell fun e he l' hl' st hst => ?_
  rcases hH e.ref l'.name with heq | ⟨heq, hself, hlist⟩ <;> rw [heq]
  · exact hst
  · exact Tells.put h.toDrafts hp hpaired hpair hx he (h.stored e he) hl' hself hlist hst

omit hD in
/-- What is not told yet when a link to one leads elsewhere are the lists of the records that it led
to and leads to. -/
theorem Aimed.await (hpaired : c.Paired) {os : List Ref} {x : Ref} {j : Int} {w : Value}
    {G' : Cells}
    (h : c.Aimed D K r N G' (retold (fun _ _ => G) x l.name (G.put m.rootTable column j w)) s)
    (hx : s.Holds x m.rootTable j)
    (hos : ∀ o, o ∈ os ↔ ∃ k, s.Holds o t.rootTable k ∧
      (G m.rootTable column j = .int k ∨ w = .int k)) :
    c.Aimed D K r N G' (awaiting G (G.put m.rootTable column j w) back.name os) s := by
  refine Aimed.bring hp hpair hpaired h hx w fun y n => ?_
  by_cases hmem : n = back.name ∧ y ∈ os
  · obtain ⟨k, hk, -⟩ := (hos y).1 hmem.2
    refine Or.inl ?_
    rw [hmem.1, awaiting_of_mem hmem.2, retold_of_ne (hpair.ne_of_holds hp h.toDrafts hx hk)]
  · rw [awaiting, if_neg hmem]
    by_cases hself : y = x ∧ n = l.name
    · exact Or.inl (by rw [hself.1, hself.2, retold_self])
    · rw [retold_of_ne hself]
      refine Or.inr ⟨rfl, hself, fun hn k hk => not_or.1 fun hor => hmem ⟨hn, ?_⟩⟩
      exact (hos y).2 ⟨k, hk, hor⟩

omit hD in
/-- What a link to one led to, if it is known, loses the record from its list. -/
theorem ends_lose_old {x : Ref} {j : Int} {old : Option (List Ref)} {new : List Ref} {w : Value}
    {G' : Cells} (h : c.Aimed D K r N G'
      (awaiting G (G.put m.rootTable column j w) back.name (old.getD [] ++ new)) s)
    (hx : s.Holds x m.rootTable j) (hN : ∀ y, N y back.name)
    (hold : s.Peeks t.rootTable (G m.rootTable column j) old) (hnew : s.Names t.rootTable new w)
    (hw : G m.rootTable column j ≠ w) : Ends ((old.getD []).forM (lose c x l)) s (fun _ u =>
      c.Aimed D K r N G' (awaiting G (G.put m.rootTable column j w) back.name new) u) E := by
  have hs := h.toDrafts
  rcases hold.eq_or with ⟨rfl | rfl, -⟩ | ⟨o, k, rfl, hk, ho⟩
  · exact h
  · exact h
  · rw [Option.getD_some] at h
    have hmem : o ∈ [o] ++ new := List.mem_append_left _ (List.mem_singleton_self o)
    have hno : o ∉ new := fun hmem => by
      obtain ⟨i, hi, hi'⟩ := (hnew.mem_iff hs).1 hmem
      exact hw (hk.trans (hs.number_eq ho hi ▸ hi'.symm))
    change Ends (lose c x l o >>= fun _ => pure ()) s _ _
    rw [ends_bind]
    refine (ends_lose_one (j := j) (k := k) (w := w) hp hpair h ho hx (hN o) ?_ ?_).imp
      (fun _ u hu => ?_) fun _ _ h => h
    · rwa [awaiting_of_mem hmem]
    · exact fun hw' => hw (hk.trans hw'.symm)
    · rw [awaiting_of_mem hmem] at hu
      exact retold_awaiting hno ▸ hu

/-- Giving a link to one another record changes the cell that the link fills. -/
theorem ends_setOne (hpaired : c.Paired) (h : c.Aimed D K r N G (fun _ _ => G) s) {x : Ref}
    {j : Int} (hx : s.Holds x m.rootTable j) (hN : ∀ y, N y back.name)
    (hfresh : G m.rootTable column j = D.cells m.rootTable column j) {new : Option Ref} {w : Value}
    (hnew : s.Names t.rootTable new.toList w) : Ends (setOne c x l new) s (fun _ u =>
      c.Aimed D K r N (G.put m.rootTable column j w) (fun _ _ => G.put m.rootTable column j w) u)
      E := by
  have hput := ends_putOne (E := E) hp hpair hD h.counting hx hnew
  unfold setOne
  rw [ends_bind]
  refine hput.imp ?_ fun _ _ h => h
  rintro old u ⟨hpeeks, hu⟩
  have hux := hu.holds _ _ _ hx
  have hs := hu.toDrafts
  replace hu := hu.put hp hpair hux w
  replace hnew : u.Names t.rootTable new.toList w := hnew.mono hu.holds
  split
  · next heq =>
    have hv := (hpeeks.names _ (beq_iff_eq.1 heq)).value_unique hs hnew
    rw [G.put_eq_self _ _ _ _ hv] at hu ⊢
    refine h.counted (hu.retell fun e he l' hl' st hst => ?_)
    simpa [retold] using hst
  · next hne =>
    have hv : G m.rootTable column j ≠ w := by
      rintro rfl
      cases old with
      | none =>
        obtain ⟨k, hk, hno⟩ := hpeeks.unknown rfl
        rcases hnew.eq_or with ⟨-, hw⟩ | ⟨o, i, -, hi, ho⟩
        · simp [hw] at hk
        · exact hno o (Value.int.inj (hi.symm.trans hk) ▸ ho)
      | some b => exact hne (by simp [(hpeeks.names b rfl).unique hs hnew])
    have hos : ∀ o, o ∈ old.getD [] ++ new.toList ↔ ∃ k, u.Holds o t.rootTable k ∧
        (G m.rootTable column j = .int k ∨ w = .int k) := fun o => by
      simp only [List.mem_append, hpeeks.mem_iff hs, hnew.mem_iff hs, ← exists_or, and_or_left]
    have hawait := Aimed.await hp hpair hpaired hu.counting hux hos
    have hcascade : Ends (new.forM (cascade x)) u (fun _ u' => u' = u) E := by
      cases new with
      | none => exact rfl
      | some n =>
        obtain ⟨k, hk, -⟩ := (hnew.mem_iff hs).1 (List.mem_singleton_self n)
        exact ends_cascade hu hux hk
    rw [ends_bind]
    refine hcascade.imp ?_ fun _ _ h => h
    rintro - _ rfl
    rw [ends_bind]
    refine (ends_lose_old hp hpair hawait hux hN hpeeks hnew hv).imp (fun _ u' hu' => ?_)
      fun _ _ h => h
    cases new with
    | none => exact h.counted (hu.counted (awaiting_nil ▸ hu'))
    | some n =>
      obtain ⟨k, hk, hw⟩ := (hnew.mem_iff hs).1 (List.mem_singleton_self n)
      subst hw
      have hmem := List.mem_singleton_self n
      refine (ends_keep_one hp hpair hu' (hu'.holds _ _ _ hk) (hu'.holds _ _ _ hux) (hN n)
        (hfresh ▸ hv) ?_).imp (fun _ u'' hu'' => ?_) fun _ _ h => h
      · exact (awaiting_of_mem hmem).symm ▸ hv
      · rw [Option.toList_some, awaiting_of_mem hmem, retold_awaiting (by simp), awaiting_nil]
          at hu''
        exact h.counted (hu.counted hu'')

end Act

end Hypermedia
