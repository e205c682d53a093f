import Hypermedia.Proofs.Session.Counting
import Hypermedia.Proofs.Session.Quiet
import Hypermedia.Proofs.Session.Wishes

/-!
# What a session is to write

As long as nothing is written, the cells that the rows of a session are to have (`G`) can be told
from what its records were given: a column from the value that it was given, a column that refers to
another record from the link that fills it, and the list that leads back agrees with both
(`Catalog.Aimed`). While one side of a link is changed after the other the two disagree. So each
link has cells of its own, those that it already tells (`H`); when all is done they are all `G`.

A session that only read aims at what the database has (`Catalog.Quiet.aimed`), and reading a link
leaves the aim (`Catalog.Aimed.reading`).
-/

namespace Hypermedia

/-- A link that a column fills, and a link to the records whose columns refer back. -/
def Link.mirrors (l back : Link) : Bool :=
  match l.kind, back.kind with
  | .reference x, .members y | .members x, .reference y => x == y
  | _, _ => false

namespace Catalog

/-- Links come in pairs of a link to one and the list that leads back, and every column that refers
to other records is filled by one link. -/
structure Paired (c : Catalog) : Prop where
  back : ∀ m ∈ c.models, ∀ l ∈ m.links, ((Act.inverseOf c l).any fun back =>
    l.mirrors back && Act.inverseOf c back == some l) = true
  only : ∀ m ∈ c.models, ∀ l ∈ m.links, ∀ l' ∈ m.links,
    l.isList = false → l.kind = l'.kind → l = l'
  filled : ∀ m ∈ c.models, ∀ x ∈ m.columns, x.column.refersTo.isSome = true →
    ∃ l ∈ m.links, l.kind = .reference x.column.name

/-- A link to one of a model that fills a column, and the list of the target that leads back. -/
structure Pair (c : Catalog) (m : Model) (l : Link) (column : String) (t : Model) (back : Link) :
    Prop where
  mem : m ∈ c.models
  link : l ∈ m.links
  kind : l.kind = .reference column
  isOne : l.isList = false
  target : c.model? l.target = some t
  inverse : Act.inverseOf c l = some back
  alone : c.isAlone m = true
  refers : m.refers column t.rootTable = true
  backMem : t ∈ c.models
  backLink : back ∈ t.links
  backKind : back.kind = .members column
  backIsList : back.isList = true
  backTarget : c.model? back.target = some m
  backInverse : Act.inverseOf c back = some l
  backAlone : c.isAlone t = true

variable {c : Catalog} {m t : Model} {l back : Link} {column : String}

/-- A list of a plain catalog is one of records that refer to its owner. -/
theorem Plain.members_of_isList (hp : c.Plain) (hm : m ∈ c.models) (hl : l ∈ m.links)
    (hlist : l.isList = true) : ∃ column, l.kind = .members column := by
  obtain ⟨t, -, hspec⟩ := hp.linkSpec hm hl
  cases hk : l.kind with
  | reference column => exact absurd hlist (by simp [(hspec.reference column hk).1])
  | members column => exact ⟨column, rfl⟩
  | pairs table own other => exact absurd hk (hspec.pairs table own other)

theorem Plain.link_eq_of_name (hp : c.Plain) (hm : m ∈ c.models) {l' : Link} (hl : l ∈ m.links)
    (hl' : l' ∈ m.links) (hname : l.name = l'.name) : l = l' :=
  List.inj_on_of_nodup_map (hp.link_names m hm) hl hl' hname

theorem inverseOf_eq_some (ht : c.model? l.target = some t) :
    Act.inverseOf c l = some back ↔ l.inverse.bind t.link? = some back := by
  simp [Act.inverseOf, ht, Option.bind_eq_bind]

theorem mem_of_inverseOf (hp : c.Plain) (hm : m ∈ c.models) (hl : l ∈ m.links)
    (h : Act.inverseOf c l = some back) :
    ∃ t, c.model? l.target = some t ∧ back ∈ t.links ∧ back.target = m.name := by
  obtain ⟨t, ht, hspec⟩ := hp.linkSpec hm hl
  have hback := (inverseOf_eq_some ht).1 h
  obtain ⟨name, -, hlink⟩ := Option.bind_eq_some_iff.1 hback
  exact ⟨t, ht, List.mem_of_find?_eq_some hlink, hspec.inverse back hback⟩

/-- The other side of a link to one. -/
theorem Paired.of_reference (h : c.Paired) (hp : c.Plain) (hm : m ∈ c.models) (hl : l ∈ m.links)
    (hkind : l.kind = .reference column) : ∃ t back, c.Pair m l column t back := by
  obtain ⟨back, hback, hcond⟩ := (Option.any_eq_true _ _).1 (h.back m hm l hl)
  simp only [Link.mirrors, hkind, Bool.and_eq_true, beq_iff_eq] at hcond
  obtain ⟨hmirrors, hinverse⟩ := hcond
  obtain ⟨t, ht, hbl, hbt⟩ := mem_of_inverseOf hp hm hl hback
  obtain ⟨htm, htname⟩ := model?_mem ht
  obtain ⟨t', ht', hspec⟩ := hp.linkSpec hm hl
  obtain rfl := Option.some.inj (ht.symm.trans ht')
  obtain ⟨m', hm', hback'⟩ := hp.linkSpec htm hbl
  have hbm : c.model? back.target = some m := hbt ▸ hp.model?_eq hm
  obtain rfl := Option.some.inj (hbm.symm.trans hm')
  have hbkind : back.kind = .members column := by
    split at hmirrors
    · next y _ heq hbk =>
      cases heq
      rw [hbk, beq_iff_eq.1 hmirrors]
    · next heq _ => cases heq
    · cases hmirrors
  exact ⟨t, back, hm, hl, hkind, (hspec.reference column hkind).1, ht, hback, hback'.alone,
    (hspec.reference column hkind).2, htm, hbl, hbkind, (hback'.members column hbkind).1, hbm,
    hinverse, hspec.alone⟩

/-- The other side of a list. -/
theorem Paired.of_members (h : c.Paired) (hp : c.Plain) (ht : t ∈ c.models)
    (hback : back ∈ t.links) (hkind : back.kind = .members column) :
    ∃ m l, c.Pair m l column t back := by
  obtain ⟨l, hl, hcond⟩ := (Option.any_eq_true _ _).1 (h.back t ht back hback)
  simp only [Link.mirrors, hkind, Bool.and_eq_true, beq_iff_eq] at hcond
  obtain ⟨hmirrors, hinverse⟩ := hcond
  obtain ⟨m, hm, hlm, hlt⟩ := mem_of_inverseOf hp ht hback hl
  have hlkind : l.kind = .reference column := by
    split at hmirrors
    · next heq _ => cases heq
    · next y _ heq hlk =>
      cases heq
      rw [hlk, beq_iff_eq.1 hmirrors]
    · cases hmirrors
  obtain ⟨t', back', hpair⟩ := h.of_reference hp (model?_mem hm).1 hlm hlkind
  obtain rfl := Option.some.inj (hpair.target.symm.trans (hlt ▸ hp.model?_eq ht))
  obtain rfl := Option.some.inj (hpair.inverse.symm.trans hinverse)
  exact ⟨m, l, hpair⟩

/-- The link to one that fills a column is the only one that does. -/
theorem Pair.eq_of_kind (hpair : c.Pair m l column t back) (h : c.Paired) {l' : Link}
    (hl' : l' ∈ m.links) (hkind : l'.kind = .reference column) : l' = l :=
  (h.only m hpair.mem l hpair.link l' hl' hpair.isOne (hpair.kind.trans hkind.symm)).symm

end Catalog

/-! ## What links tell of cells -/

namespace Session

/-- The records are the one that a reference leads to. -/
inductive Names (s : Session) (root : String) : List Ref → Value → Prop
  | nothing : s.Names root [] .null
  | one {o : Ref} {k : Int} (h : s.Holds o root k) : s.Names root [o] (.int k)

/-- What is known of a link to one agrees with a cell that has `v` in the database and is to have
`w`. -/
structure Aims (s : Session) (root : String) (v w : Value) (st : LinkState) : Prop where
  unread : ∀ added removed, st = .unread added removed → added = [] ∧ removed = [] ∧ w = v
  before : ∀ before now, st = .read (some before) now → s.Names root before v
  now : ∀ before now, st = .read before now → s.Names root now w

variable {s t : Session} {root : String} {v w : Value} {st : LinkState}

theorem Names.eq_or {xs : List Ref} (h : s.Names root xs v) :
    xs = [] ∧ v = .null ∨ ∃ o k, xs = [o] ∧ v = .int k ∧ s.Holds o root k := by
  cases h with
  | nothing => exact Or.inl ⟨rfl, rfl⟩
  | one h => exact Or.inr ⟨_, _, rfl, rfl, h⟩

theorem Names.mono {xs : List Ref} (h : s.Names root xs v)
    (hst : s.NumbersFrom t) : t.Names root xs v := by
  cases h with
  | nothing => exact .nothing
  | one h => exact .one (hst _ _ _ h)

theorem Aims.mono (h : s.Aims root v w st) (hst : s.NumbersFrom t) : t.Aims root v w st where
  unread := h.unread
  before := fun b now heq => (h.before b now heq).mono hst
  now := fun b now heq => (h.now b now heq).mono hst

theorem aims_unread (s : Session) (root : String) (v : Value) :
    s.Aims root v v (.unread [] []) where
  unread := by
    rintro _ _ ⟨⟩
    exact ⟨rfl, rfl, rfl⟩
  before := by simp
  now := by simp

theorem aims_read {before : Option (List Ref)} {now : List Ref}
    (hbefore : ∀ b, before = some b → s.Names root b v) (hnow : s.Names root now w) :
    s.Aims root v w (.read before now) where
  unread := by simp
  before := by
    rintro b _ ⟨⟩
    exact hbefore b rfl
  now := by
    rintro _ _ ⟨⟩
    exact hnow

theorem Names.mem_iff {c : Catalog} {D : Database} (hs : c.Drafts D s) {xs : List Ref}
    (h : s.Names root xs v) {x : Ref} : x ∈ xs ↔ ∃ k, s.Holds x root k ∧ v = .int k := by
  rcases h.eq_or with ⟨rfl, rfl⟩ | ⟨o, k, rfl, rfl, ho⟩
  · simp
  · rw [List.mem_singleton]
    refine ⟨fun hx => ⟨k, hx ▸ ho, rfl⟩, ?_⟩
    rintro ⟨i, hx, hi⟩
    exact hs.eq_of_holds hx (Value.int.inj hi ▸ ho)

/-- A value names records in one way. -/
theorem Names.unique {c : Catalog} {D : Database} (hs : c.Drafts D s) {xs ys : List Ref}
    (h : s.Names root xs v) (h' : s.Names root ys v) : xs = ys := by
  rcases h.eq_or with ⟨rfl, rfl⟩ | ⟨o, k, rfl, rfl, ho⟩ <;>
    rcases h'.eq_or with ⟨rfl, hv⟩ | ⟨o', k', rfl, hv, ho'⟩ <;> cases hv
  · rfl
  · rw [hs.eq_of_holds ho ho']

theorem Names.value_unique {c : Catalog} {D : Database} (hs : c.Drafts D s) {xs : List Ref}
    (h : s.Names root xs v) (h' : s.Names root xs w) : v = w := by
  rcases h.eq_or with ⟨rfl, rfl⟩ | ⟨o, k, rfl, rfl, ho⟩ <;>
    rcases h'.eq_or with ⟨hxs, rfl⟩ | ⟨o', k', hxs, rfl, ho'⟩ <;> cases hxs
  · rfl
  · rw [hs.number_eq ho ho']

end Session

/-! ## What a session aims at -/

/-- The column of a model, if it has it, refers to no other record. -/
def Model.IsFree (m : Model) (name : String) : Prop :=
  ∀ x, m.column? name = some x → x.column.refersTo = none

/-- What a record was given in its columns is what its row is to have. -/
structure Entry.Settles (e : Entry) (D : Database) (G : Cells) : Prop where
  kept : ∀ k, e.key = [.int k] → ∀ name, e.model.IsFree name → e.given? name = none →
    G e.model.rootTable name k = D.cells e.model.rootTable name k
  given : ∀ k, e.key = [.int k] → ∀ name x v w, e.model.column? name = some x →
    x.column.refersTo = none → e.given? name = some v → x.column.type.store v = .ok w →
      G e.model.rootTable name k = w

namespace Catalog

/-- A link of a record tells what the cells are to be that depend on it. -/
structure Tells (c : Catalog) (D : Database) (G : Cells) (r : Ref) (s : Session) (e : Entry)
    (l : Link) (st : LinkState) : Prop where
  one : ∀ column t k, l.kind = .reference column → c.model? l.target = some t →
    e.key = [.int k] → s.Aims t.rootTable (D.cells e.model.rootTable column k)
      (G e.model.rootTable column k) st
  many : ∀ column t k, l.kind = .members column → c.model? l.target = some t →
    e.key = [.int k] → s.Counts t.rootTable k (D.cells t.rootTable column)
      (G t.rootTable column) st
  misses : e.ref = r → ∀ column t k, l.kind = .members column → c.model? l.target = some t →
    e.key = [.int k] → s.Misses t.rootTable k (D.cells t.rootTable column)
      (G t.rootTable column) st

/-- A session of stored records that is to write the cells `G`. Each link tells its own cells `H`.
The records under `K` are known by their numbers. The lists under `N` know no record twice, and
those of `r` miss all that left them. -/
structure Aimed (c : Catalog) (D : Database) (K : Ref → String → Int → Prop) (r : Ref)
    (N : Ref → String → Prop) (G : Cells) (H : Ref → String → Cells) (s : Session) : Prop extends
    c.Edited D (· = r) s where
  stored : ∀ e ∈ s.entries, e.isStored = true
  holds : ∀ x root k, K x root k → s.Holds x root k
  rest : ∀ table column k, (∀ x, ¬s.Holds x table k) → G table column k = D.cells table column k
  settles : ∀ e ∈ s.entries, e.Settles D G
  tells : ∀ e ∈ s.entries, ∀ l ∈ e.model.links,
    c.Tells D (H e.ref l.name) r s e l (e.linkState l.name)
  neat : ∀ e ∈ s.entries, ∀ l ∈ e.model.links, l.isList = true → N e.ref l.name →
    (e.linkState l.name).Distinct

variable {c : Catalog} {D : Database} {K : Ref → String → Int → Prop} {r : Ref}
  {N : Ref → String → Prop} {G G' : Cells} {H : Ref → String → Cells} {s u : Session} {e : Entry}

theorem Tells.mono {l : Link} {st : LinkState} (h : c.Tells D G r s e l st)
    (hsu : s.NumbersFrom u) : c.Tells D G r u e l st where
  one := fun column t k hk ht hkey => (h.one column t k hk ht hkey).mono hsu
  many := fun column t k hk ht hkey => (h.many column t k hk ht hkey).mono hsu
  misses := fun hr column t k hk ht hkey => (h.misses hr column t k hk ht hkey).mono hsu

/-- What a link tells depends on the row of its record. -/
theorem Tells.of_entry {e' : Entry} {l : Link} {st : LinkState} (h : c.Tells D G r s e l st)
    (href : e'.ref = e.ref) (hmodel : e'.model = e.model) (hkey : e'.key = e.key) :
    c.Tells D G r s e' l st := by
  constructor
  · rw [hmodel, hkey]
    exact h.one
  · rw [hkey]
    exact h.many
  · rw [href, hkey]
    exact h.misses

/-- What a link tells depends on some cells only. -/
theorem Tells.congr {l : Link} {st : LinkState} (h : c.Tells D G r s e l st)
    (hone : ∀ column k, l.kind = .reference column → e.key = [.int k] →
      G' e.model.rootTable column k = G e.model.rootTable column k)
    (hmany : ∀ column t k, l.kind = .members column → c.model? l.target = some t →
      e.key = [.int k] → ∀ j, G' t.rootTable column j = .int k ↔ G t.rootTable column j = .int k) :
    c.Tells D G' r s e l st where
  one := fun column t k hk ht hkey => hone column k hk hkey ▸ h.one column t k hk ht hkey
  many := fun column t k hk ht hkey =>
    (h.many column t k hk ht hkey).congr (hmany column t k hk ht hkey)
  misses := fun hr column t k hk ht hkey =>
    (h.misses hr column t k hk ht hkey).congr (hmany column t k hk ht hkey)

/-- The links may tell other cells if they tell these as well. -/
theorem Aimed.retell {H' : Ref → String → Cells} (h : c.Aimed D K r N G H s)
    (hH : ∀ e ∈ s.entries, ∀ l ∈ e.model.links, ∀ st, c.Tells D (H e.ref l.name) r s e l st →
      c.Tells D (H' e.ref l.name) r s e l st) : c.Aimed D K r N G H' s :=
  { h with tells := fun e he l hl => hH e he l hl _ (h.tells e he l hl) }

theorem Aimed.fewer {M : Ref → String → Prop} (h : c.Aimed D K r N G H s)
    (hN : ∀ x name, M x name → N x name) : c.Aimed D K r M G H s :=
  { h with neat := fun e he l hl hlist hx => h.neat e he l hl hlist (hN _ _ hx) }

/-- A stored record is the one of its row. -/
theorem Aimed.holds_self (h : c.Aimed D K r N G H s) (he : e ∈ s.entries) :
    ∃ k, e.key = [.int k] ∧ s.Holds e.ref e.model.rootTable k := by
  obtain ⟨k, -, hk, -⟩ := (h.draft e he).stored (h.stored e he)
  exact ⟨k, hk, e, he, rfl, h.stored e he, rfl, hk⟩

/-! ## Sessions that only read -/

/-- The row of a record has the cells of the database. -/
theorem cell_eq_cells {k : Int} (hk : e.key = [.int k]) {name : String}
    (hnone : e.given? name = none) : e.cell D name = D.cells e.model.rootTable name k := by
  rw [Entry.cell, hnone, Option.getD_none, Entry.row?_eq_some hk]
  rfl

section

variable (hp : c.Plain) (hD : c.Sound D)

include hp hD

/-- What the database links to a record by a link to one is what the cell of the record names. -/
theorem Linked.names (he : c.Draft D e) {k : Int} (hk : e.key = [.int k]) {l : Link}
    (hl : l ∈ e.model.links) {column : String} (hkind : l.kind = .reference column) {t : Model}
    (ht : c.model? l.target = some t) {xs : List Ref} (h : c.Linked D s e l xs) :
    s.Names t.rootTable xs (D.cells e.model.rootTable column k) := by
  obtain ⟨t', ht', hspec⟩ := hp.linkSpec he.model hl
  obtain rfl := Option.some.inj (ht.symm.trans ht')
  have hrefers := (hspec.reference column hkind).2
  obtain ⟨x, hx, hto⟩ := (Option.any_eq_true _ _).1 hrefers
  have hto : x.column.refersTo = some (t.rootTable, "id") := by simpa using hto
  have hnone := he.given?_eq_none hp hx (by simp [hto])
  have hrows := h t ht
  rw [Database.linkedRows, hkind] at hrows
  dsimp only at hrows
  rw [← cell_eq_cells hk hnone]
  rcases he.reference_cell hp hD hrefers with hnull | ⟨j, hj, hrow⟩
  · rw [hnull] at hrows ⊢
    dsimp only at hrows
    obtain rfl := List.forall₂_nil_right_iff.1 hrows
    exact .nothing
  · obtain ⟨row, hrow⟩ := Option.isSome_iff_exists.1 hrow
    rw [hj] at hrows ⊢
    simp only [hrow, Option.toList_some] at hrows
    obtain ⟨o, xs', ⟨i, hi, ho⟩, hxs', rfl⟩ := List.forall₂_cons_right_iff.1 hrows
    obtain rfl := List.forall₂_nil_right_iff.1 hxs'
    obtain ⟨-, -, -, hid⟩ := hD.row?_eq_some.1 hrow
    obtain rfl := Value.int.inj (hi.symm.trans hid)
    exact .one ho

/-- What the database links to a record by a list are all records whose cells have its number. -/
theorem Linked.lists (he : c.Draft D e) {k : Int} (hk : e.key = [.int k]) {l : Link}
    (hl : l ∈ e.model.links) {column : String} (hkind : l.kind = .members column) {t : Model}
    (ht : c.model? l.target = some t) {xs : List Ref} (h : c.Linked D s e l xs) :
    s.Lists t.rootTable k (D.cells t.rootTable column) xs := by
  obtain ⟨t', ht', hspec⟩ := hp.linkSpec he.model hl
  obtain rfl := Option.some.inj (ht.symm.trans ht')
  have htm := (model?_mem ht).1
  have hkey : Act.keyValue e = .int k := by rw [Act.keyValue, hk]; rfl
  have hint : ∀ {j row}, D.row? t.rootTable j = some row →
      ((Row.get row column == Value.int k) = true ↔ Row.get row column = .int k) := by
    intro j row hrow
    rcases hD.reference_cell hp htm hrow (hspec.members column hkind).2 with hnull | ⟨i, hi, -⟩
    · simp [hnull]
    · simp [hi]
  refine ⟨fun x hx => ?_, fun j hj => ?_⟩
  · obtain ⟨row, hrow, j, hj, hheld⟩ := exists_of_forall₂_left (h t ht) hx
    rw [Database.linkedRows, hkind, Model.mem_inKeyOrder, List.mem_filter, hkey] at hrow
    obtain ⟨t', ht', hmem⟩ := Database.mem_rowsOf.1 hrow.1
    have hrow' := hD.row?_eq_some.2 ⟨t', ht', hmem, hj⟩
    exact ⟨j, hheld, (Database.cells_eq hrow' column).trans ((hint hrow').1 hrow.2)⟩
  · cases hrow : D.row? t.rootTable j with
    | none => simp [Database.cells, hrow] at hj
    | some row =>
      rw [Database.cells_eq hrow] at hj
      obtain ⟨t', ht', hmem, hid⟩ := hD.row?_eq_some.1 hrow
      exact h.members hkind ht ht' hmem (hkey ▸ (hint hrow).2 hj) hid

/-- The database links no record twice by a list. -/
theorem Linked.nodup (hs : c.Drafts D s) (he : c.Draft D e) {l : Link} (hl : l ∈ e.model.links)
    {column : String} (hkind : l.kind = .members column) {xs : List Ref}
    (h : c.Linked D s e l xs) : xs.Nodup := by
  obtain ⟨t, ht, -⟩ := hp.linkSpec he.model hl
  have hrows := h t ht
  rw [Database.linkedRows, hkind] at hrows
  dsimp only at hrows
  obtain ⟨u, hu, -⟩ := hD.table hp (model?_mem ht).1
  have hids : (t.inKeyOrder ((D.rowsOf t.rootTable).filter fun row =>
      Row.get row column == Act.keyValue e)).Pairwise fun a b =>
        Row.get a "id" ≠ Row.get b "id" := by
    rw [Database.rowsOf_eq hu]
    refine List.Pairwise.perm ?_ (List.mergeSort_perm _ _).symm fun h => Ne.symm h
    exact (hD.distinct u (Database.table_mem hu).1).filter _
  generalize t.inKeyOrder _ = rows at hrows hids
  clear h
  induction hrows with
  | nil => exact List.nodup_nil
  | @cons x row xs rows hx hrest ih =>
    rw [List.pairwise_cons] at hids
    refine List.nodup_cons.2 ⟨fun hmem => ?_, ih hids.2⟩
    obtain ⟨row', hrow', j, hj, hheld⟩ := exists_of_forall₂_left hrest hmem
    obtain ⟨i, hi, hheld'⟩ := hx
    exact hids.1 row' hrow' (hi.trans ((hs.number_eq hheld' hheld) ▸ hj.symm))

/-- A session that only read aims at what the database has. -/
theorem Quiet.aimed (hs : c.Quiet D s) (hedited : c.Edited D (· = r) s)
    (hstored : ∀ e ∈ s.entries, e.isStored = true)
    (hK : ∀ x root k, K x root k → s.Holds x root k) :
    c.Aimed D K r N D.cells (fun _ _ => D.cells) s := by
  have hclean : ∀ e ∈ s.entries, c.Clean D s e := fun e he =>
    (hs.clean e he).resolve_left fun hfresh => by
      have hst := hstored e he
      simp [Entry.isStored, hfresh] at hst
  have hgiven : ∀ e ∈ s.entries, ∀ name, e.given? name = none := fun e he name => by
    simp [Entry.given?, (hclean e he).values, Fields.get?]
  refine ⟨hedited, hstored, hK, fun _ _ _ _ => rfl, fun e he => ⟨fun _ _ _ _ _ => rfl, ?_⟩,
    fun e he l hl => ?_, fun e he l hl hlist _ => ?_⟩
  · intro k _ name x v w _ _ hv
    rw [hgiven e he name] at hv
    cases hv
  · have hdraft := hs.draft e he
    rcases (hclean e he).linkState l.name with hst | ⟨xs, hst, hlinked⟩ <;> rw [hst]
    · exact ⟨fun _ _ _ _ _ _ => Session.aims_unread _ _ _, fun _ _ _ _ _ _ =>
        Session.counts_unread fun _ hj => hj, fun _ _ _ _ _ _ _ j hC hG => absurd hC hG⟩
    · have hlinked := hlinked l (hp.link?_eq hdraft.model hl)
      refine ⟨fun column t k hk ht hkey => ?_, fun column t k hk ht hkey => ?_,
        fun _ _ _ _ _ _ _ j hC hG => absurd hC hG⟩
      · have hnames := hlinked.names hp hD hdraft hkey hl hk ht
        exact Session.aims_read (fun b hb => Option.some.inj hb ▸ hnames) hnames
      · exact Session.counts_read (hlinked.lists hp hD hdraft hkey hl hk ht) fun _ => Iff.rfl
  · have hdraft := hs.draft e he
    rcases (hclean e he).linkState l.name with hst | ⟨xs, hst, hlinked⟩ <;> rw [hst]
    · exact ⟨List.nodup_nil, List.nodup_nil⟩
    · obtain ⟨column, hk⟩ := hp.members_of_isList hdraft.model hl hlist
      exact (hlinked l (hp.link?_eq hdraft.model hl)).nodup hp hD hs.toDrafts hdraft hl hk

/-! ## Reading towards an aim -/

omit hD in
/-- Where a cell is to have the number of another record than in the database this record is
known. -/
theorem Aimed.holds_of_ne (h : c.Aimed D K r N G (fun _ _ => G) s)
    {m t : Model} {l back : Link} {column : String} (hpair : c.Pair m l column t back) {j k : Int}
    (hj : G m.rootTable column j = .int k)
    (hne : D.cells m.rootTable column j ≠ .int k) : ∃ o, s.Holds o t.rootTable k := by
  obtain ⟨x, z, hz, rfl, hst, hroot, hkey⟩ : ∃ x, s.Holds x m.rootTable j := by
    by_contra hno
    exact hne (h.rest _ _ _ (fun x hx => hno ⟨x, hx⟩) ▸ hj)
  have hmodel : z.model = m := by
    have hdraft := h.draft z hz
    have hname := isAlone_eq hpair.alone hdraft.model hroot
    exact Option.some.inj ((hp.model?_eq hdraft.model).symm.trans
      (hname ▸ hp.model?_eq hpair.mem))
  subst hmodel
  have haims := (h.tells z hz l hpair.link).one column t j hpair.kind hpair.target hkey
  generalize z.linkState l.name = st at haims
  cases st with
  | unread added removed => exact absurd ((haims.unread added removed rfl).2.2 ▸ hj) hne
  | read before now =>
    have hnames := haims.now before now rfl
    rw [hj] at hnames
    cases hnames with
    | one ho => exact ⟨_, ho⟩

/-- What a link leads to is read: it tells the same cells. -/
theorem Tells.read (hs : c.Drafts D s) (he : c.Draft D e) {l : Link} (hl : l ∈ e.model.links)
    {added removed stored : List Ref} (h : c.Tells D G r s e l (.unread added removed))
    (hlinked : c.Linked D s e l stored) : c.Tells D G r s e l
      (.read (some stored) ((stored ++ added).filter fun x => !removed.contains x)) where
  one := fun column t k hk ht hkey => by
    have hnames := hlinked.names hp hD he hkey hl hk ht
    obtain ⟨rfl, rfl, heq⟩ := (h.one column t k hk ht hkey).unread _ _ rfl
    refine Session.aims_read (fun b hb => Option.some.inj hb ▸ hnames) ?_
    rw [heq]
    simpa using hnames
  many := fun column t k hk ht hkey =>
    hs.counts_read (hlinked.lists hp hD he hkey hl hk ht) (h.many column t k hk ht hkey)
  misses := fun href column t k hk ht hkey =>
    hs.misses_read (hlinked.lists hp hD he hkey hl hk ht) (h.misses href column t k hk ht hkey)

omit hD in
/-- The links of a record that was not known before tell what the session aims at. -/
theorem Aimed.tells_unread (hpaired : c.Paired) (h : c.Aimed D K r N G (fun _ _ => G) s)
    (he : e.model ∈ c.models) {k : Int} (hkey : e.key = [.int k])
    (hunknown : ∀ x, ¬s.Holds x e.model.rootTable k) (href : e.ref ≠ r) {l : Link}
    (hl : l ∈ e.model.links) : c.Tells D G r u e l (.unread [] []) where
  one := fun column t j _ _ hj => by
    obtain rfl : k = j := by simpa [hkey] using hj
    rw [h.rest _ _ _ hunknown]
    exact Session.aims_unread _ _ _
  many := fun column t j hkind ht hj => by
    obtain rfl : k = j := by simpa [hkey] using hj
    refine Session.counts_unread fun i hi => by_contra fun hne => ?_
    obtain ⟨m', l', hpair⟩ := hpaired.of_members hp he hl hkind
    obtain rfl := Option.some.inj (hpair.backTarget.symm.trans ht)
    obtain ⟨o, ho⟩ := h.holds_of_ne hp hpair hi hne
    exact hunknown o ho
  misses := fun heq => absurd heq href

/-- Reading leaves the aim of a session. -/
theorem Aimed.reading (hpaired : c.Paired) :
    c.Reading D (c.Aimed D K r N G fun _ _ => G) where
  drafts := fun h => h.toDrafts
  receive := by
    intro s m n row h hnew hn hno
    have hseen := Session.SeenFrom.receive s n (.stored false) (m.keyNames.map (Row.get row))
    have hedited := (Edited.reading hp hD).receive h.toEdited hnew hn hno
    obtain ⟨k, hkey, hrow⟩ := hnew.keyValues hp
    obtain ⟨hnm, hroot, -⟩ := hnew.model hD hn
    have hunknown : ∀ x, ¬s.Holds x n.rootTable k := fun x => by
      rw [hroot]
      exact Session.not_holds_of_identified hkey hno
    refine ⟨hedited, fun e he => ?_, fun x root k hx => (h.holds x root k hx).mono hseen,
      fun table column j hx => h.rest _ _ _ fun x hheld => hx x (hheld.mono hseen), fun e he => ?_,
      fun e he l hl => ?_, fun e he l hl hlist hx => ?_⟩ <;>
      rcases List.mem_append.1 he with he | he
    · exact h.stored e he
    · rw [List.mem_singleton.1 he]
      rfl
    · exact h.settles e he
    · obtain rfl := List.mem_singleton.1 he
      refine ⟨fun j hj name _ _ => ?_, fun j _ name x v w _ _ hv => ?_⟩
      · obtain rfl : k = j := by simpa [hkey] using hj
        exact h.rest _ _ _ hunknown
      · simp [Entry.given?, Fields.get?] at hv
    · exact (h.tells e he l hl).mono hseen.numbers
    · obtain rfl := List.mem_singleton.1 he
      have hst : Entry.linkState
          { ref := { number := s.next, model := n.name }, model := n, phase := .stored false
            key := m.keyNames.map (Row.get row), values := [], links := [], isDoomed := false
            lost := [] } l.name = .unread [] [] := by
        simp [Entry.linkState, Fields.get?, Entry.isStored]
      rw [hst]
      -- The record that is given something is known.
      refine h.tells_unread hp hpaired hnm hkey hunknown (fun href => ?_) hl
      have hlt := h.before r rfl
      rw [← href] at hlt
      exact absurd hlt (Nat.lt_irrefl _)
    · exact h.neat e he l hl hlist hx
    · rw [List.mem_singleton.1 he]
      simp [Entry.linkState, Fields.get?, Entry.isStored, LinkState.Distinct]
  readLink := by
    intro s₀ s e₀ e l added removed stored h₀ hseen₀ he₀ href₀ hmodel₀ hphase₀ hst h he hl hlinked
    have hseen := Session.SeenFrom.setLink s e.ref l.name
      (.read (some stored) ((stored ++ added).filter fun x => !removed.contains x))
    have hedited := (Edited.reading hp hD).readLink h₀.toEdited hseen₀ he₀ href₀ hmodel₀ hphase₀
      hst h.toEdited he hl hlinked
    have hdraft := h.draft e he
    have hkey : e.key = e₀.key := by
      obtain ⟨e', he', href', -, -, hkey', -⟩ := hseen₀ e₀ he₀
      rw [← hkey', Session.eq_of_ref_eq h.distinct he' he (href'.trans href₀)]
    have htells := ((h₀.tells e₀ he₀ l (hmodel₀ ▸ hl)).mono hseen₀.numbers).of_entry href₀.symm
      hmodel₀.symm hkey
    rw [hst] at htells
    have hread := htells.read hp hD h.toDrafts hdraft hl hlinked
    refine ⟨hedited, fun e' he' => ?_, fun x root k hx => (h.holds x root k hx).mono hseen,
      fun table column j hx => h.rest _ _ _ fun x hheld => hx x (hheld.mono hseen),
      fun e' he' => ?_, fun e' he' l' hl' => ?_, fun e' he' l' hl' hlist hx => ?_⟩ <;>
      obtain ⟨e₁, he₁, ⟨href, rfl⟩ | ⟨-, rfl⟩⟩ := Session.mem_modify he'
    · exact h.stored e₁ he₁
    · exact h.stored _ he₁
    · exact ⟨(h.settles e₁ he₁).kept, (h.settles e₁ he₁).given⟩
    · exact h.settles _ he₁
    · obtain rfl := Session.eq_of_ref_eq h.distinct he₁ he href
      by_cases hname : l'.name = l.name
      · obtain rfl := hp.link_eq_of_name hdraft.model hl' hl hname
        rw [Entry.linkState_setLink]
        exact (hread.mono hseen.numbers).of_entry rfl rfl rfl
      · rw [Entry.linkState_setLink_of_ne _ hname]
        exact ((h.tells e₁ he l' hl').mono hseen.numbers).of_entry rfl rfl rfl
    · exact (h.tells _ he₁ l' hl').mono hseen.numbers
    · obtain rfl := Session.eq_of_ref_eq h.distinct he₁ he href
      by_cases hname : l'.name = l.name
      · obtain rfl := hp.link_eq_of_name hdraft.model hl' hl hname
        rw [Entry.linkState_setLink]
        obtain ⟨column, hk⟩ := hp.members_of_isList hdraft.model hl hlist
        obtain ⟨t, ht, -⟩ := hp.linkSpec hdraft.model hl
        obtain ⟨k, hkey, -⟩ := h.holds_self he
        refine h.toDrafts.distinct_read (hlinked.lists hp hD hdraft hkey hl hk ht)
          (htells.many column t k hk ht hkey) (hlinked.nodup hp hD h.toDrafts hdraft hl hk) ?_
        rw [← hst]
        exact h₀.neat e₀ he₀ l' (hmodel₀ ▸ hl) hlist (href₀ ▸ hx)
      · rw [Entry.linkState_setLink_of_ne _ hname]
        exact h.neat e₁ he l' hl' hlist hx
    · exact h.neat _ he₁ l' hl' hlist hx

end

end Catalog

end Hypermedia
