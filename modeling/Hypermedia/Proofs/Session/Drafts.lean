import Hypermedia.Proofs.Fields
import Hypermedia.Proofs.Relational.Sound
import Hypermedia.Proofs.Session.Act

/-!
# Sessions that have not written

Until a session writes, its database is the one that it began with, and its records are
drafts: a stored one has a row, and what a record was given fits its model. Links lead to
records of their targets (`Catalog.Draft`, `Catalog.Drafts`).

Giving something to a draft and getting to know a row keep a session of drafts one.
-/

namespace Hypermedia

namespace LinkState

/-- All records that are known of a link. -/
def refs : LinkState → List Ref
  | .unread added removed => added ++ removed
  | .read before now => before.getD [] ++ now

theorem mem_refs_of_current {s : LinkState} {r : Ref} (h : r ∈ s.current) : r ∈ s.refs := by
  cases s with
  | unread added removed => cases h
  | read before now => exact List.mem_append_right _ h

theorem mem_refs_of_earlier {s : LinkState} {r : Ref} (h : r ∈ s.earlier) : r ∈ s.refs := by
  cases s with
  | unread added removed => cases h
  | read before now => exact List.mem_append_left _ h

theorem mem_refs_of_gained {s : LinkState} {r : Ref} (h : r ∈ s.gained) : r ∈ s.refs :=
  mem_refs_of_current (List.mem_filter.1 h).1

theorem mem_refs_of_dropped {s : LinkState} {r : Ref} (h : r ∈ s.dropped) : r ∈ s.refs :=
  mem_refs_of_earlier (List.mem_filter.1 h).1

theorem mem_refs_of_involved {s : LinkState} {r : Ref} (h : r ∈ s.involved) : r ∈ s.refs := by
  simp only [involved, List.mem_append] at h
  rcases h with (h | h) | h
  · exact mem_refs_of_gained h
  · exact mem_refs_of_current (List.mem_filter.1 h).1
  · exact mem_refs_of_dropped h

end LinkState

namespace Entry

/-- The session writes the records that are stored and those that are to be. -/
theorem isMember_eq (e : Entry) : e.isMember = (e.isStored || e.isPending) := by
  unfold isMember isStored isPending
  cases e.phase <;> rfl

theorem isPending_eq_false {e : Entry} (h : e.isStored = true) : e.isPending = false := by
  unfold isStored at h
  unfold isPending
  cases hph : e.phase <;> first | rfl | (rw [hph] at h; cases h)

theorem isMember_of_isStored {e : Entry} (h : e.isStored = true) : e.isMember = true := by
  rw [isMember_eq, h, Bool.true_or]

theorem isStored_eq_false {e : Entry} (h : e.isPending = true) : e.isStored = false :=
  Bool.eq_false_iff.2 fun hst => by simp [isPending_eq_false hst] at h

theorem linkState_setLink (e : Entry) (name : String) (st : LinkState) :
    (e.setLink name st).linkState name = st := by
  simp [linkState, setLink, Fields.get?_rebind]

theorem linkState_setLink_of_ne (e : Entry) {name other : String} (h : other ≠ name)
    (st : LinkState) : (e.setLink name st).linkState other = e.linkState other := by
  have hget := Fields.get?_rebind e.links name st other
  rw [if_neg h] at hget
  unfold linkState setLink
  rw [hget]
  rfl

theorem given?_setValue (e : Entry) (name : String) (v : Value) (k : String) :
    (e.setValue name v).given? k = if k = name then some v else e.given? k :=
  Fields.get?_rebind e.values name v k

/-- What is known of a link is kept with the record, or the record is linked to nothing that
is known. -/
theorem linkState_cases (e : Entry) (name : String) :
    (name, e.linkState name) ∈ e.links ∨ (e.linkState name).refs = [] := by
  unfold linkState
  split
  · next st hst =>
    obtain ⟨⟨n, st'⟩, hfind, rfl⟩ := Option.map_eq_some_iff.1 hst
    have hname : n = name := by simpa using List.find?_some hfind
    exact Or.inl (hname ▸ List.mem_of_find?_eq_some hfind)
  · exact Or.inr (by split <;> rfl)

end Entry

namespace Catalog

/-- What may be given to a column of a record: a value of the type of a column that clients
may write, or the identity of the model. -/
def Accepts (m : Model) (name : String) (v : Value) : Prop :=
  ∃ x, m.column? name = some x ∧
    (m.isOwn x.column = true ∧ (v = .null ∨ x.column.type.holds v = true) ∨
      m.discriminator = some name ∧ ∃ i, m.identity = some i ∧ v = .text i)

/-- A record of a session that has not written: it has a row if it is stored, and what it
was given fits its model. -/
structure Draft (c : Catalog) (D : Database) (e : Entry) : Prop where
  model : e.model ∈ c.models
  name : e.ref.model = e.model.name
  built : e.model.isBuilt = true
  phase : e.phase = .fresh ∨ (∃ n, e.phase = .pending n) ∨ e.phase = .stored false
  stored : e.isStored = true → ∃ k r, e.key = [.int k] ∧
    D.row? e.model.rootTable k = some r ∧ c.modelOfRow e.model r = .ok e.model
  unstored : e.isStored = false → e.key = []
  kind : e.isStored = false → ∀ k ∈ e.model.discriminator, (e.given? k).isSome = true
  value : ∀ v ∈ e.values, Accepts e.model v.1 v.2
  link : ∀ s ∈ e.links, ∀ l, e.model.link? s.1 = some l → ∀ r ∈ s.2.refs, r.model = l.target
  lost : ∀ l ∈ e.lost, l.owns = false

/-- A session whose records are drafts, each with a number of its own and each row known
once. -/
structure Drafts (c : Catalog) (D : Database) (s : Session) : Prop where
  db : s.db = D
  committed : s.committed = D
  failed : s.failed = false
  eager : s.eager = false
  draft : ∀ e ∈ s.entries, c.Draft D e
  numbers : ∀ e ∈ s.entries, e.ref.number < s.next
  distinct : (s.entries.map fun e => e.ref.number).Nodup
  keys : s.entries.Pairwise fun a b => a.isStored = true → b.isStored = true →
    a.model.rootTable = b.model.rootTable → a.key ≠ b.key

/-- A session of drafts of which none is to be deleted, and in which the records of some
references, if they are known, are stored. -/
structure Edited (c : Catalog) (D : Database) (H : Ref → Prop) (s : Session) : Prop extends
    c.Drafts D s where
  kept : ∀ e ∈ s.entries, e.isDoomed = false
  held : ∀ e ∈ s.entries, H e.ref → e.isStored = true
  before : ∀ r, H r → r.number < s.next

/-- The row of a record that a session does not know yet. -/
def NewRow (c : Catalog) (D : Database) (m : Model) (row : Row) : Prop :=
  m ∈ c.models ∧ ∃ k, Row.get row "id" = .int k ∧ D.row? m.rootTable k = some row

/-- A link of the records of the model that a reference names. -/
def Has (c : Catalog) (r : Ref) (l : Link) : Prop :=
  ∃ m, c.model? r.model = some m ∧ l ∈ m.links

end Catalog

namespace Session

variable {s : Session}

theorem known?_mem {r : Ref} {e : Entry} (h : s.known? r = some e) :
    e ∈ s.entries ∧ e.ref = r :=
  ⟨List.mem_of_find?_eq_some h, by simpa using List.find?_some h⟩

section

variable (hn : (s.entries.map fun e => e.ref.number).Nodup) {e e' : Entry}

include hn

/-- Records of one reference are one record. -/
theorem eq_of_ref_eq (he : e ∈ s.entries) (he' : e' ∈ s.entries) (h : e.ref = e'.ref) : e = e' :=
  List.inj_on_of_nodup_map hn he he' (congrArg Ref.number h)

/-- A record is known by its reference. -/
theorem known?_eq_some (he : e ∈ s.entries) : s.known? e.ref = some e := by
  refine (find?_key_eq_some ?_).2 ⟨he, rfl⟩
  have hmap : (s.entries.map fun e => e.ref.number) = (s.entries.map Entry.ref).map Ref.number := by
    rw [List.map_map]
    rfl
  exact (hmap ▸ hn).of_map _

end

theorem mem_modify {r : Ref} {f : Entry → Entry} {e : Entry} (h : e ∈ (s.modify r f).entries) :
    ∃ e₀ ∈ s.entries, (e₀.ref = r ∧ e = f e₀) ∨ (e₀.ref ≠ r ∧ e = e₀) := by
  obtain ⟨e₀, he₀, heq⟩ := List.mem_map.1 h
  split at heq
  · next hr => exact ⟨e₀, he₀, Or.inl ⟨by simpa using hr, heq.symm⟩⟩
  · next hr => exact ⟨e₀, he₀, Or.inr ⟨by simpa using hr, heq.symm⟩⟩

/-- A changed record is still known by its reference. -/
theorem known?_modify {r : Ref} {f : Entry → Entry} (hf : ∀ e, (f e).ref = e.ref) {e : Entry}
    (h : s.known? r = some e) : (s.modify r f).known? r = some (f e) := by
  have href : ((fun e : Entry => e.ref == r) ∘ fun e => if e.ref == r then f e else e) =
      fun e => e.ref == r := by
    funext e
    by_cases hr : e.ref = r <;> simp [hr, hf]
  change ((s.entries.map _).find? _) = _
  rw [List.find?_map, href, show s.entries.find? _ = some e from h]
  simp [(known?_mem h).2]

/-- Changing a record in a way that keeps it in its place keeps a property of the places. -/
theorem map_modify {α : Type} {r : Ref} {f : Entry → Entry} (g : Entry → α)
    (h : ∀ e ∈ s.entries, e.ref = r → g (f e) = g e) :
    (s.modify r f).entries.map g = s.entries.map g := by
  change (s.entries.map fun e => if e.ref == r then f e else e).map g = _
  rw [List.map_map]
  refine List.map_congr_left fun e he => ?_
  by_cases hr : e.ref = r
  · simp [hr, h e he hr]
  · simp [hr]

end Session

namespace Catalog

variable {c : Catalog} {D : Database} {H : Ref → Prop} {s : Session}

/-- Changing a record as drafts may be changed leaves a session of drafts. -/
theorem Drafts.modify (h : c.Drafts D s) {r : Ref} {f : Entry → Entry}
    (hf : ∀ e ∈ s.entries, e.ref = r → c.Draft D (f e) ∧ (f e).ref = e.ref ∧
      (f e).model = e.model ∧ (f e).isStored = e.isStored ∧ (f e).key = e.key) :
    c.Drafts D (s.modify r f) where
  db := h.db
  committed := h.committed
  failed := h.failed
  eager := h.eager
  draft := by
    intro e he
    obtain ⟨e₀, he₀, ⟨hr, rfl⟩ | ⟨-, rfl⟩⟩ := Session.mem_modify he
    · exact (hf e₀ he₀ hr).1
    · exact h.draft _ he₀
  numbers := by
    intro e he
    obtain ⟨e₀, he₀, ⟨hr, rfl⟩ | ⟨-, rfl⟩⟩ := Session.mem_modify he
    · rw [(hf e₀ he₀ hr).2.1]
      exact h.numbers e₀ he₀
    · exact h.numbers _ he₀
  distinct := by
    rw [Session.map_modify]
    · exact h.distinct
    · intro e he hr
      rw [(hf e he hr).2.1]
  keys := by
    refine List.pairwise_map.2 (h.keys.imp_of_mem fun {a b} ha hb hab => ?_)
    have hsame : ∀ e ∈ s.entries, (if e.ref == r then f e else e).isStored = e.isStored ∧
        (if e.ref == r then f e else e).key = e.key ∧
        (if e.ref == r then f e else e).model = e.model := by
      intro e he
      split
      · next hr =>
        obtain ⟨-, -, h3, h4, h5⟩ := hf e he (by simpa using hr)
        exact ⟨h4, h5, h3⟩
      · exact ⟨rfl, rfl, rfl⟩
    obtain ⟨ha1, ha2, ha3⟩ := hsame a ha
    obtain ⟨hb1, hb2, hb3⟩ := hsame b hb
    rw [ha1, ha2, ha3, hb1, hb2, hb3]
    exact hab

theorem Edited.modify (h : c.Edited D H s) {r : Ref} {f : Entry → Entry}
    (hf : ∀ e, c.Draft D e → e.ref = r → c.Draft D (f e) ∧ (f e).ref = e.ref ∧
      (f e).model = e.model ∧ (f e).isStored = e.isStored ∧ (f e).key = e.key ∧
        (f e).isDoomed = e.isDoomed) : c.Edited D H (s.modify r f) where
  toDrafts := h.toDrafts.modify fun e he hr =>
    have ⟨h1, h2, h3, h4, h5, _⟩ := hf e (h.draft e he) hr
    ⟨h1, h2, h3, h4, h5⟩
  kept := by
    intro e he
    obtain ⟨e₀, he₀, ⟨hr, rfl⟩ | ⟨-, rfl⟩⟩ := Session.mem_modify he
    · rw [(hf e₀ (h.draft e₀ he₀) hr).2.2.2.2.2]
      exact h.kept e₀ he₀
    · exact h.kept _ he₀
  held := by
    intro e he hH
    obtain ⟨e₀, he₀, ⟨hr, rfl⟩ | ⟨-, rfl⟩⟩ := Session.mem_modify he
    · obtain ⟨-, href, -, hst, -⟩ := hf e₀ (h.draft e₀ he₀) hr
      rw [hst]
      exact h.held e₀ he₀ (href ▸ hH)
    · exact h.held _ he₀ hH
  before := h.before

/-- A session of drafts stays one with a further draft. -/
theorem Drafts.append (h : c.Drafts D s) {e : Entry} (he : c.Draft D e)
    (hn : e.ref.number = s.next)
    (hkey : ∀ e' ∈ s.entries, e'.isStored = true → e.isStored = true →
      e'.model.rootTable = e.model.rootTable → e'.key ≠ e.key) :
    c.Drafts D { s with entries := s.entries ++ [e], next := s.next + 1 } := by
  refine ⟨h.db, h.committed, h.failed, h.eager, ?_, ?_, ?_, ?_⟩
  · intro e' he'
    rcases List.mem_append.1 he' with he' | he'
    · exact h.draft e' he'
    · exact List.mem_singleton.1 he' ▸ he
  · intro e' he'
    rcases List.mem_append.1 he' with he' | he'
    · exact Nat.lt_succ_of_lt (h.numbers e' he')
    · rw [List.mem_singleton.1 he', hn]
      exact Nat.lt_succ_self _
  · rw [List.map_append, List.nodup_append]
    refine ⟨h.distinct, List.nodup_singleton _, ?_⟩
    intro i hi j hj hij
    obtain ⟨e', he', rfl⟩ := List.mem_map.1 hi
    have hlt := h.numbers e' he'
    simp only [List.map_cons, List.map_nil, List.mem_singleton] at hj
    omega
  · refine List.pairwise_append.2 ⟨h.keys, List.pairwise_singleton _ _, ?_⟩
    intro e' he' e'' he''
    obtain rfl := List.mem_singleton.1 he''
    exact hkey e' he'

theorem Edited.append (h : c.Edited D H s) {e : Entry} (he : c.Draft D e)
    (hn : e.ref.number = s.next) (hkept : e.isDoomed = false)
    (hkey : ∀ e' ∈ s.entries, e'.isStored = true → e.isStored = true →
      e'.model.rootTable = e.model.rootTable → e'.key ≠ e.key) :
    c.Edited D H { s with entries := s.entries ++ [e], next := s.next + 1 } := by
  refine ⟨h.toDrafts.append he hn hkey, fun e' he' => ?_, fun e' he' hH => ?_,
    fun r hr => Nat.lt_succ_of_lt (h.before r hr)⟩
  · rcases List.mem_append.1 he' with he' | he'
    · exact h.kept e' he'
    · exact List.mem_singleton.1 he' ▸ hkept
  · rcases List.mem_append.1 he' with he' | he'
    · exact h.held e' he' hH
    · obtain rfl := List.mem_singleton.1 he'
      exact absurd (hn ▸ h.before _ hH) (Nat.lt_irrefl _)

/-- A session of drafts stays one without some of the records. -/
theorem Drafts.filter (h : c.Drafts D s) (p : Entry → Bool) :
    c.Drafts D { s with entries := s.entries.filter p } where
  db := h.db
  committed := h.committed
  failed := h.failed
  eager := h.eager
  draft := fun e he => h.draft e (List.mem_filter.1 he).1
  numbers := fun e he => h.numbers e (List.mem_filter.1 he).1
  distinct := h.distinct.sublist (List.filter_sublist.map _)
  keys := h.keys.filter p

theorem Edited.filter (h : c.Edited D H s) (p : Entry → Bool) :
    c.Edited D H { s with entries := s.entries.filter p } where
  toDrafts := h.toDrafts.filter p
  kept := fun e he => h.kept e (List.mem_filter.1 he).1
  held := fun e he => h.held e (List.mem_filter.1 he).1
  before := h.before

/-- A record is known by its reference. -/
theorem Drafts.known?_eq (h : c.Drafts D s) {e : Entry} (he : e ∈ s.entries) :
    s.known? e.ref = some e :=
  Session.known?_eq_some h.distinct he

/-! ## Getting to know rows -/

theorem NewRow.keyValues (hp : c.Plain) {m : Model} {row : Row} (h : c.NewRow D m row) :
    ∃ k, m.keyNames.map (Row.get row) = [.int k] ∧ D.row? m.rootTable k = some row := by
  obtain ⟨hm, k, hk, hrow⟩ := h
  exact ⟨k, by simp [hp.keyNames m hm, hk], hrow⟩

/-- The model of a row is the same for all models of its table. -/
theorem modelOfRow_eq_self (hp : c.Plain) {m n : Model} (hm : m ∈ c.models) (hn : n ∈ c.models)
    (hroot : n.rootTable = m.rootTable) {row : Row} (h : c.modelOfRow m row = .ok n) :
    c.modelOfRow n row = .ok n := by
  have hsame := hp.sameKind n hn m hm hroot
  unfold modelOfRow at h ⊢
  rw [hsame]
  cases hk : m.discriminator with
  | none => rfl
  | some k =>
    rw [hk] at h
    simpa only [hroot] using h

theorem NewRow.model (hD : c.Sound D) {m n : Model} {row : Row} (h : c.NewRow D m row)
    (hn : c.modelOfRow m row = .ok n) :
    n ∈ c.models ∧ n.rootTable = m.rootTable ∧ n.isBuilt = true := by
  obtain ⟨hm, k, -, hrow⟩ := h
  obtain ⟨t, ht, hmem, -⟩ := hD.row?_eq_some.1 hrow
  obtain ⟨htmem, hname⟩ := Database.table_mem ht
  obtain ⟨n', hn', hmodel, hroot, hb⟩ := (hD.row t htmem row hmem).kind m hm hname.symm
  obtain rfl := Except.ok.inj (hn.symm.trans hmodel)
  exact ⟨hn', hroot.trans hname, hb⟩

/-- A row as a record of a session of drafts. -/
theorem NewRow.draft (hp : c.Plain) (hD : c.Sound D) {m n : Model} {row : Row}
    (h : c.NewRow D m row) (hn : c.modelOfRow m row = .ok n) (number : Nat) :
    c.Draft D
      { ref := { number, model := n.name }, model := n, phase := .stored false
        key := m.keyNames.map (Row.get row), values := [], links := [], isDoomed := false
        lost := [] } := by
  obtain ⟨k, hkey, hrow⟩ := h.keyValues hp
  obtain ⟨hn', hroot, hb⟩ := h.model hD hn
  exact
    { model := hn', name := rfl, built := hb, phase := Or.inr (Or.inr rfl)
      stored := fun _ => ⟨k, row, hkey, by rw [hroot]; exact hrow,
        modelOfRow_eq_self hp h.1 hn' hroot hn⟩
      unstored := fun h => by cases h
      kind := fun h => by cases h
      value := by simp
      link := by simp
      lost := by simp }

/-- A session of drafts stays one when it gets to know a row. -/
theorem Drafts.receive (hp : c.Plain) (hD : c.Sound D) (hs : c.Drafts D s) {m n : Model}
    {row : Row} (h : c.NewRow D m row) (hn : c.modelOfRow m row = .ok n)
    (hnew : s.identified? m.rootTable (m.keyNames.map (Row.get row)) = none) :
    c.Drafts D (s.receive n (.stored false) (m.keyNames.map (Row.get row))).1 := by
  refine hs.append (h.draft hp hD hn s.next) rfl fun e he hstored _ hroot hkey => ?_
  obtain ⟨k, hkeys, -⟩ := h.keyValues hp
  refine List.find?_eq_none.1 hnew e he ?_
  have hbeq : (e.key == m.keyNames.map (Row.get row)) = true := by
    rw [hkey, hkeys]
    simp
  simp [hstored, hroot, (h.model hD hn).2.1, hbeq]

end Catalog

end Hypermedia
