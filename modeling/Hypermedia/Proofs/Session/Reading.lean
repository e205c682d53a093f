import Hypermedia.Proofs.Session.Drafts
import Hypermedia.Session.Store
import Mathlib.Data.List.Pairwise

/-!
# Reading among drafts

Reading lets a session know more rows and more of what links lead to, and changes nothing
that records were given (`Session.SeenFrom`). What a session may be is a parameter here: any
property of sessions of drafts that stays when a row gets known and when a link is read
(`Catalog.Reading`). `Act.Reads` says how an action that only reads ends; the records that
it gives are those of the rows that it looks for.
-/

namespace Hypermedia

/-! ## What a session knows -/

namespace Entry

/-- The row of a record, if it has one. -/
def row? (e : Entry) (D : Database) : Option Row :=
  match e.key with
  | [.int k] => D.row? e.model.rootTable k
  | _ => none

theorem row?_eq_some {e : Entry} {D : Database} {k : Int} (h : e.key = [.int k]) :
    e.row? D = D.row? e.model.rootTable k := by
  rw [row?, h]

/-- What a record has in a column: what it was given, or what is in its row. -/
def cell (e : Entry) (D : Database) (name : String) : Value :=
  (e.given? name).getD (((e.row? D).map (Row.get · name)).getD .null)

end Entry

namespace Session

/-- The records of a session are those of another, apart from new ones and from what is
known of links. -/
def SeenFrom (s₀ s : Session) : Prop :=
  ∀ e₀ ∈ s₀.entries, ∃ e ∈ s.entries, e.ref = e₀.ref ∧ e.model = e₀.model ∧ e.phase = e₀.phase ∧
    e.key = e₀.key ∧ e.values = e₀.values

/-- The reference is that of a stored record with a number in a table. -/
def Holds (s : Session) (r : Ref) (root : String) (k : Int) : Prop :=
  ∃ e ∈ s.entries, e.ref = r ∧ e.isStored = true ∧ e.model.rootTable = root ∧ e.key = [.int k]

/-- The reference is that of the stored record with the number of a row in a table. -/
def HoldsRow (s : Session) (r : Ref) (root : String) (row : Row) : Prop :=
  ∃ k, Row.get row "id" = .int k ∧ s.Holds r root k

variable {s t u : Session}

theorem SeenFrom.refl (s : Session) : s.SeenFrom s :=
  fun e he => ⟨e, he, rfl, rfl, rfl, rfl, rfl⟩

theorem SeenFrom.trans (h : s.SeenFrom t) (h' : t.SeenFrom u) : s.SeenFrom u := by
  intro e₀ he₀
  obtain ⟨e, he, h1, h2, h3, h4, h5⟩ := h e₀ he₀
  obtain ⟨e', he', h1', h2', h3', h4', h5'⟩ := h' e he
  exact ⟨e', he', h1'.trans h1, h2'.trans h2, h3'.trans h3, h4'.trans h4, h5'.trans h5⟩

theorem SeenFrom.receive (s : Session) (m : Model) (p : Phase) (key : List Value) :
    s.SeenFrom (s.receive m p key).1 :=
  fun e he => ⟨e, List.mem_append_left _ he, rfl, rfl, rfl, rfl, rfl⟩

theorem SeenFrom.modify (s : Session) (r : Ref) {f : Entry → Entry}
    (hf : ∀ e, (f e).ref = e.ref ∧ (f e).model = e.model ∧ (f e).phase = e.phase ∧
      (f e).key = e.key ∧ (f e).values = e.values) : s.SeenFrom (s.modify r f) := by
  intro e he
  refine ⟨if e.ref == r then f e else e, List.mem_map_of_mem he, ?_⟩
  split
  · exact hf e
  · exact ⟨rfl, rfl, rfl, rfl, rfl⟩

theorem SeenFrom.setLink (s : Session) (r : Ref) (name : String) (st : LinkState) :
    s.SeenFrom (s.modify r fun e => e.setLink name st) :=
  .modify s r fun _ => ⟨rfl, rfl, rfl, rfl, rfl⟩

theorem isStored_congr {e e' : Entry} (h : e.phase = e'.phase) : e.isStored = e'.isStored := by
  unfold Entry.isStored
  rw [h]

theorem Holds.mono {r : Ref} {root : String} {k : Int} (h : s.Holds r root k)
    (hst : s.SeenFrom t) : t.Holds r root k := by
  obtain ⟨e, he, hr, hstored, hroot, hkey⟩ := h
  obtain ⟨e', he', h1, h2, h3, h4, -⟩ := hst e he
  exact ⟨e', he', h1.trans hr, (isStored_congr h3).trans hstored, h2 ▸ hroot, h4.trans hkey⟩

theorem HoldsRow.mono {r : Ref} {root : String} {row : Row} (h : s.HoldsRow r root row)
    (hst : s.SeenFrom t) : t.HoldsRow r root row :=
  h.imp fun _ ⟨hid, hr⟩ => ⟨hid, hr.mono hst⟩

/-- A row that the session does not know is not the row of any of its records. -/
theorem not_holds_of_identified {root : String} {key : List Value} {k : Int}
    (hkey : key = [.int k]) (h : s.identified? root key = none) : ¬s.Holds r root k := by
  rintro ⟨e, he, -, hst, hroot, hk⟩
  have hno := List.find?_eq_none.1 h e he
  simp [hst, hroot, hk, hkey] at hno

end Session

/-- Rows in the order of the keys of a model. -/
def Model.inKeyOrder (m : Model) (rows : List Row) : List Row :=
  rows.mergeSort fun a b =>
    !Value.keysLess (m.keyNames.map (Row.get b)) (m.keyNames.map (Row.get a))

theorem Model.mem_inKeyOrder {m : Model} {rows : List Row} {row : Row} :
    row ∈ m.inKeyOrder rows ↔ row ∈ rows :=
  List.mem_mergeSort

/-- The rows of a model that a link leads to from a record with this key and these cells: all
that refer to the key, or the one that a cell refers to. -/
def Database.linkedRows (D : Database) (l : Link) (m : Model) (key : Value)
    (cell : String → Value) : List Row :=
  match l.kind with
  | .reference column =>
    match cell column with
    | .int k => (D.row? m.rootTable k).toList
    | _ => []
  | .members column =>
    m.inKeyOrder ((D.rowsOf m.rootTable).filter fun row => Row.get row column == key)
  | .pairs .. => []

namespace Catalog

variable {c : Catalog} {D : Database} {s t : Session}

/-- Is a row of the root table one of the model? -/
def isKind (c : Catalog) (m : Model) (row : Row) : Bool :=
  match m.isSingle, m.discriminator with
  | true, some column =>
    (c.descendants m.name).any fun x => x.identity.map Value.text == some (Row.get row column)
  | _, _ => true

theorem isKind_of_isAlone {m : Model} (h : c.isAlone m = true) (row : Row) :
    c.isKind m row = true := by
  simp only [isAlone, Bool.and_eq_true, Option.isNone_iff_eq_none] at h
  simp [isKind, h.1]

/-- A record whose row is one of a model is a record of a model that extends it. -/
theorem extends_of_isKind (hp : c.Plain) {m : Model} (hm : m ∈ c.models) {e : Entry}
    (he : c.Draft D e) (hroot : e.model.rootTable = m.rootTable) {row : Row}
    (hrow : c.modelOfRow e.model row = .ok e.model) (hkind : c.isKind m row = true) :
    e.model.extends_ m.name = true := by
  refine hp.kinds m hm e.model he.model hroot ?_
  have hsame := hp.sameKind e.model he.model m hm hroot
  unfold isKind at hkind
  split at hkind
  · next column hs hk =>
    right
    obtain ⟨x, hx, hid⟩ := List.any_eq_true.1 hkind
    refine ⟨x, hx, ?_⟩
    simp only [modelOfRow, hsame, hk] at hrow
    split at hrow
    · next y hy =>
      cases hrow
      have hfound := List.find?_some hy
      simp only [Bool.and_eq_true] at hfound
      exact Value.identity_eq hid hfound.2
    · cases hrow
  · next hno =>
    left
    cases hs : m.isSingle with
    | false => rfl
    | true =>
      cases hk : m.discriminator with
      | none => rfl
      | some column => exact absurd hk (hno column hs)

/-- The row of a record of a model that extends another is one of the other. -/
theorem isKind_of_extends (hp : c.Plain) {m n : Model} (hm : m ∈ c.models) (hn : n ∈ c.models)
    (hroot : n.rootTable = m.rootTable) {row : Row} (hrow : c.modelOfRow n row = .ok n)
    (h : n.extends_ m.name = true) : c.isKind m row = true := by
  unfold isKind
  split
  · next column _ hk =>
    refine List.any_eq_true.2 ⟨n, List.mem_filter.2 ⟨hn, h⟩, ?_⟩
    simp only [modelOfRow, hp.sameKind n hn m hm hroot, hk] at hrow
    split at hrow
    · next x hx =>
      cases hrow
      have hfound := List.find?_some hx
      simp only [Bool.and_eq_true] at hfound
      exact hfound.2
    · cases hrow
  · rfl

theorem Draft.model?_eq (hp : c.Plain) {e : Entry} (he : c.Draft D e) :
    c.model? e.ref.model = some e.model :=
  he.name ▸ hp.model?_eq he.model

/-- Records with one reference have one model. -/
theorem Draft.model_eq (hp : c.Plain) {e e' : Entry} (he : c.Draft D e) (he' : c.Draft D e')
    (h : e.ref = e'.ref) : e.model = e'.model := by
  have h1 := he.model?_eq hp
  rw [h, he'.model?_eq hp] at h1
  exact (Option.some.inj h1).symm

section

variable (hs : c.Drafts D s) {r r' : Ref} {root : String} {k : Int}

include hs

theorem Drafts.exists_row (h : s.Holds r root k) : ∃ row, D.row? root k = some row := by
  obtain ⟨e, he, -, hst, rfl, hk⟩ := h
  obtain ⟨j, row, hj, hrow, -⟩ := (hs.draft e he).stored hst
  obtain rfl : j = k := by simpa [hj] using hk
  exact ⟨row, hrow⟩

/-- A row is known as one record. -/
theorem Drafts.eq_of_holds (h : s.Holds r root k) (h' : s.Holds r' root k) : r = r' := by
  obtain ⟨e, he, rfl, hst, hroot, hk⟩ := h
  obtain ⟨e', he', rfl, hst', hroot', hk'⟩ := h'
  by_contra hne
  have hsymm : Std.Symm fun a b : Entry => a.isStored = true → b.isStored = true →
      a.model.rootTable = b.model.rootTable → a.key ≠ b.key :=
    ⟨fun a b hab h1 h2 h3 h4 => hab h2 h1 h3.symm h4.symm⟩
  exact hs.keys.forall he he' (fun heq => hne (congrArg Entry.ref heq)) hst hst'
    (hroot.trans hroot'.symm) (hk.trans hk'.symm)

/-- A record has one number. -/
theorem Drafts.number_unique {root' : String} {k' : Int} (h : s.Holds r root k)
    (h' : s.Holds r root' k') : root = root' ∧ k = k' := by
  obtain ⟨e, he, href, -, hroot, hk⟩ := h
  obtain ⟨e', he', href', -, hroot', hk'⟩ := h'
  obtain rfl := Session.eq_of_ref_eq hs.distinct he he' (href.trans href'.symm)
  exact ⟨hroot.symm.trans hroot', by simpa [hk] using hk'⟩

end

/-- A record has the links of the model that its reference names. -/
theorem Draft.mem_links (hp : c.Plain) {e : Entry} (he : c.Draft D e) {l : Link}
    (hl : c.Has e.ref l) : l ∈ e.model.links := by
  obtain ⟨m, hm, hl⟩ := hl
  rw [he.model?_eq hp] at hm
  exact Option.some.inj hm ▸ hl

theorem Plain.link?_eq (hp : c.Plain) {m : Model} (hm : m ∈ c.models) {l : Link}
    (hl : l ∈ m.links) : m.link? l.name = some l :=
  (find?_key_eq_some (hp.link_names m hm)).2 ⟨hl, rfl⟩

/-- A column that refers to other records is not given anything before a writing. -/
theorem Draft.given?_eq_none (hp : c.Plain) {e : Entry} (he : c.Draft D e) {x : MappedColumn}
    {column : String} (hx : e.model.column? column = some x)
    (href : x.column.refersTo.isSome = true) : e.given? column = none := by
  cases hg : e.given? column with
  | none => rfl
  | some v =>
    obtain ⟨⟨name, w⟩, hfind, -⟩ := Option.map_eq_some_iff.1 hg
    have hname : name = column := by simpa using List.find?_some hfind
    obtain ⟨y, hy, ⟨hown, -⟩ | ⟨hk, -⟩⟩ := he.value _ (List.mem_of_find?_eq_some hfind)
    · rw [show (name, w).1 = column from hname, hx] at hy
      obtain rfl := Option.some.inj hy
      simp [Model.isOwn, href] at hown
    · have hkind := hp.kind e.model he.model _ hk
      rw [show (name, w).1 = column from hname, hx] at hkind
      simp [Option.isNone_iff_eq_none, Option.isSome_iff_ne_none] at hkind href
      exact absurd hkind.2 href

/-- What a record has in a column that refers to a table: nothing, or the number of a row. -/
theorem Draft.reference_cell (hp : c.Plain) (hD : c.Sound D) {e : Entry} (he : c.Draft D e)
    {column table : String} (href : e.model.refers column table = true) :
    e.cell D column = .null ∨ ∃ k, e.cell D column = .int k ∧ (D.row? table k).isSome = true := by
  obtain ⟨x, hx, hto⟩ := (Option.any_eq_true _ _).1 href
  have hnone := he.given?_eq_none hp hx (by simp [show x.column.refersTo = _ by simpa using hto])
  unfold Entry.cell
  rw [hnone, Option.getD_none]
  cases hrow : e.row? D with
  | none => exact Or.inl rfl
  | some row =>
    unfold Entry.row? at hrow
    split at hrow
    · exact hD.reference_cell hp he.model hrow href
    · cases hrow

/-- The records that the database links to a record: those of the rows that the link leads to. -/
def Linked (c : Catalog) (D : Database) (s : Session) (e : Entry) (l : Link)
    (xs : List Ref) : Prop :=
  ∀ m, c.model? l.target = some m → List.Forall₂ (fun x row => s.HoldsRow x m.rootTable row) xs
    (D.linkedRows l m (Act.keyValue e) (e.cell D))

theorem Linked.target {e : Entry} {l : Link} {xs : List Ref} (h : c.Linked D s e l xs)
    {m : Model} (hm : c.model? l.target = some m) {x : Ref} (hx : x ∈ xs) :
    ∃ k, s.Holds x m.rootTable k := by
  obtain ⟨row, -, k, -, hk⟩ := exists_of_forall₂_left (h m hm) hx
  exact ⟨k, hk⟩

/-- The record of every row that refers to the key is among them. -/
theorem Linked.members {e : Entry} {l : Link} {xs : List Ref} (h : c.Linked D s e l xs)
    {column : String} (hc : l.kind = .members column) {m : Model}
    (hm : c.model? l.target = some m) {t : Table} (ht : D.table m.rootTable = .ok t) {row : Row}
    (hrow : row ∈ t.rows) (hkey : (Row.get row column == Act.keyValue e) = true) {k : Int}
    (hk : Row.get row "id" = .int k) : ∃ x ∈ xs, s.Holds x m.rootTable k := by
  have hmem : row ∈ D.linkedRows l m (Act.keyValue e) (e.cell D) := by
    rw [Database.linkedRows, hc]
    exact Model.mem_inKeyOrder.2
      (List.mem_filter.2 ⟨Database.mem_rowsOf.2 ⟨t, ht, hrow⟩, hkey⟩)
  obtain ⟨x, hx, j, hj, hheld⟩ := exists_of_forall₂_right (h m hm) hmem
  exact ⟨x, hx, Value.int.inj (hj.symm.trans hk) ▸ hheld⟩

theorem Linked.mono {e : Entry} {l : Link} {xs : List Ref} (h : c.Linked D s e l xs)
    (hst : s.SeenFrom t) : c.Linked D t e l xs :=
  fun m hm => (h m hm).imp fun _ _ hx => hx.mono hst

/-- What a record is linked to depends on its row and on what it was given. -/
theorem Linked.congr {e e' : Entry} {l : Link} {xs : List Ref} (h : c.Linked D s e l xs)
    (hmodel : e'.model = e.model) (hkey : e'.key = e.key) (hvalues : e'.values = e.values) :
    c.Linked D s e' l xs := by
  have hcell : e'.cell D = e.cell D := by
    funext name
    simp [Entry.cell, Entry.row?, Entry.given?, hmodel, hkey, hvalues]
  have hvalue : Act.keyValue e' = Act.keyValue e := by
    simp [Act.keyValue, hkey]
  unfold Linked
  rw [hcell, hvalue]
  exact h

/-- A property of sessions of drafts that stays when a row gets known and when a link is
read. -/
structure Reading (c : Catalog) (D : Database) (I : Session → Prop) : Prop where
  drafts : ∀ {s}, I s → c.Drafts D s
  receive : ∀ {s m n row}, I s → c.NewRow D m row → c.modelOfRow m row = .ok n →
    s.identified? m.rootTable (m.keyNames.map (Row.get row)) = none →
    I (s.receive n (.stored false) (m.keyNames.map (Row.get row))).1
  readLink : ∀ {s₀ s e₀ e l added removed stored}, I s₀ → s₀.SeenFrom s → e₀ ∈ s₀.entries →
    e₀.ref = e.ref → e₀.model = e.model → e₀.phase = e.phase →
    e₀.linkState l.name = .unread added removed → I s → e ∈ s.entries → l ∈ e.model.links →
    c.Linked D s e l stored →
    I (s.modify e.ref fun e => e.setLink l.name
      (.read (some stored) ((stored ++ added).filter fun x => !removed.contains x)))

/-- Two properties that reading keeps are kept together. -/
theorem Reading.and {I J : Session → Prop} (hI : c.Reading D I) (hJ : c.Reading D J) :
    c.Reading D fun s => I s ∧ J s where
  drafts := fun h => hI.drafts h.1
  receive := fun h hnew hn hno => ⟨hI.receive h.1 hnew hn hno, hJ.receive h.2 hnew hn hno⟩
  readLink := fun h₀ hseen he₀ hr hm hph hst h he hl hlinked =>
    ⟨hI.readLink h₀.1 hseen he₀ hr hm hph hst h.1 he hl hlinked,
      hJ.readLink h₀.2 hseen he₀ hr hm hph hst h.2 he hl hlinked⟩

end Catalog

/-! ## Actions that only read -/

namespace Act

variable {α β : Type} {I : Session → Prop} {s : Session}

/-- The action keeps a property of sessions and only adds to what the session knows. It has
a result like `P`, and may only fail where `E` holds. -/
def Reads (I : Session → Prop) (x : Act α) (s : Session) (P : Session → α → Prop) (E : Prop) :
    Prop :=
  I s → Ends x s (fun a t => I t ∧ s.SeenFrom t ∧ P t a) fun _ t => I t ∧ s.SeenFrom t ∧ E

variable {x : Act α} {P P' : Session → α → Prop} {Q : Session → β → Prop} {E E' : Prop}

theorem reads_pure {a : α} (h : I s → P s a) : Reads I (pure a) s P E :=
  fun hs => ⟨hs, .refl s, h hs⟩

theorem reads_throw {f : Fault} (h : I s → E) : Reads I (throw f : Act α) s P E :=
  fun hs => ⟨hs, .refl s, h hs⟩

theorem reads_ofExcept {x : Except Fault α} (h : ∀ a, x = .ok a → P s a)
    (he : ∀ f, x = .error f → E) : Reads I (ofExcept x) s P E := by
  cases x with
  | ok a => exact fun hs => ⟨hs, .refl s, h a rfl⟩
  | error f => exact fun hs => ⟨hs, .refl s, he f rfl⟩

theorem reads_get : Reads I get s (fun t a => t = s ∧ a = s) E := fun hs => ⟨hs, .refl s, rfl, rfl⟩

theorem Reads.imp (h : Reads I x s P E) (hp : ∀ t a, I t → s.SeenFrom t → P t a → P' t a)
    (he : E → E') : Reads I x s P' E' :=
  fun hs => (h hs).imp (fun a t ⟨h1, h2, h3⟩ => ⟨h1, h2, hp t a h1 h2 h3⟩)
    fun _ _ ⟨h1, h2, h3⟩ => ⟨h1, h2, he h3⟩

theorem Reads.bind {f : α → Act β} (hx : Reads I x s P E)
    (hf : ∀ a t, I t → s.SeenFrom t → P t a → Reads I (f a) t Q E) :
    Reads I (x >>= f) s Q E := by
  intro hs
  rw [ends_bind]
  refine (hx hs).imp (fun a t ⟨ht, hst, hp⟩ => ?_) fun _ _ h => h
  refine (hf a t ht hst hp ht).imp (fun b u ⟨hu, htu, hq⟩ => ⟨hu, hst.trans htu, hq⟩) ?_
  exact fun _ u ⟨hu, htu, he⟩ => ⟨hu, hst.trans htu, he⟩

theorem Reads.ends_bind {f : α → Act β} {Q : β → Session → Prop} {F : Fault → Session → Prop}
    (hx : Reads I x s P E) (hs : I s)
    (hf : ∀ a t, I t → s.SeenFrom t → P t a → Ends (f a) t Q F) (he : ∀ f t, I t → E → F f t) :
    Ends (x >>= f) s Q F := by
  rw [Act.ends_bind]
  exact (hx hs).imp (fun a t ⟨ht, hst, hp⟩ => hf a t ht hst hp) fun f t ⟨ht, _, h⟩ => he f t ht h

theorem Reads.map {f : α → β} (hx : Reads I x s (fun t a => Q t (f a)) E) :
    Reads I (f <$> x) s Q E := by
  intro hs
  rw [ends_map]
  exact hx hs

theorem reads_ite {p : Prop} [Decidable p] {y : Act α} (hx : p → Reads I x s P E)
    (hy : ¬p → Reads I y s P E) : Reads I (if p then x else y) s P E := by
  split
  · next h => exact hx h
  · next h => exact hy h

/-- An action that reads for each member of a list has one result for each of them. -/
theorem reads_mapM {f : α → Act β} {xs : List α} {P : Session → α → β → Prop}
    (h : ∀ a ∈ xs, ∀ t, I t → s.SeenFrom t → Reads I (f a) t (fun u b => P u a b) E)
    (hmono : ∀ t u a b, Session.SeenFrom t u → P t a b → P u a b) :
    Reads I (xs.mapM f) s (fun t bs => List.Forall₂ (P t) xs bs) E := by
  induction xs generalizing s with
  | nil =>
    rw [List.mapM_nil]
    exact reads_pure fun _ => .nil
  | cons x xs ih =>
    rw [List.mapM_cons]
    intro hs
    refine Reads.bind (h x List.mem_cons_self s hs (.refl s)) (fun b t _ hst hb => ?_) hs
    refine (ih fun a ha u hu htu => h a (List.mem_cons_of_mem _ ha) u hu (hst.trans htu)).bind
      fun bs u _ htu hbs => ?_
    exact reads_pure fun _ => .cons (hmono t u x b htu hb) hbs

/-- What reading for each member finds is what a function makes of the member. -/
theorem reads_map {f : α → Act β} {g : α → β} {xs : List α}
    (h : ∀ a ∈ xs, ∀ t, I t → s.SeenFrom t → Reads I (f a) t (fun _ b => b = g a) E) :
    Reads I (xs.mapM f) s (fun _ bs => bs = xs.map g) E := by
  refine (reads_mapM h fun _ _ _ _ _ h => h).imp (fun _ bs _ _ hbs => ?_) id
  have heq := List.forall₂_map_left_iff.2 (hbs.imp fun _ _ h => h.symm)
  rw [List.forall₂_eq_eq_eq] at heq
  exact heq.symm

/-- What reading for each member finds is what a function makes of what belongs to the member. -/
theorem reads_map_forall₂ {γ : Type} {f : α → Act β} {R : Session → α → γ → Prop} (g : γ → β)
    {xs : List α} {cs : List γ} (hxs : List.Forall₂ (R s) xs cs)
    (h : ∀ a c t, R t a c → Reads I (f a) t (fun _ b => b = g c) E)
    (hmono : ∀ t u a c, Session.SeenFrom t u → R t a c → R u a c) :
    Reads I (xs.mapM f) s (fun _ bs => bs = cs.map g) E := by
  induction xs generalizing s cs with
  | nil =>
    obtain rfl := List.forall₂_nil_left_iff.1 hxs
    rw [List.mapM_nil]
    exact reads_pure fun _ => rfl
  | cons x xs ih =>
    obtain ⟨c, cs, hc, hcs, rfl⟩ := List.forall₂_cons_left_iff.1 hxs
    rw [List.mapM_cons]
    refine (h x c s hc).bind fun b t _ hst hb => ?_
    exact (ih (hcs.imp fun a c => hmono s t a c hst)).bind fun bs u _ _ hbs =>
      reads_pure fun _ => by rw [hb, hbs, List.map_cons]

/-- Filtering by a test that only reads leaves some of the members, for which the test is
true. -/
theorem reads_filterM {f : α → Act Bool} {xs : List α} {Q : α → Prop}
    (h : ∀ a ∈ xs, ∀ t, s.SeenFrom t → Reads I (f a) t (fun _ b => b = true → Q a) E) :
    Reads I (xs.filterM f) s (fun _ ys => ∀ y ∈ ys, y ∈ xs ∧ Q y) E := by
  induction xs generalizing s with
  | nil =>
    rw [filterM_nil]
    exact reads_pure (by simp)
  | cons x xs ih =>
    rw [filterM_cons]
    refine (h x List.mem_cons_self s (.refl s)).bind fun b t _ hst hb => ?_
    refine (ih fun a ha u hu => h a (List.mem_cons_of_mem _ ha) u (hst.trans hu)).bind
      fun ys u _ _ hys => reads_pure fun _ y hy => ?_
    have hlater : ∀ y ∈ ys, y ∈ x :: xs ∧ Q y := fun y hy =>
      ⟨List.mem_cons_of_mem _ (hys y hy).1, (hys y hy).2⟩
    cases b with
    | false => exact hlater y hy
    | true =>
      rcases List.mem_cons.1 hy with rfl | hy
      · exact ⟨List.mem_cons_self, hb rfl⟩
      · exact hlater y hy

/-- Filtering by a test that only reads leaves what belongs to those members of another list
that the test holds of. -/
theorem reads_filterM_forall₂ {γ : Type} {f : α → Act Bool} {R : Session → α → γ → Prop}
    (test : γ → Bool) {xs : List α} {cs : List γ} (hxs : List.Forall₂ (R s) xs cs)
    (h : ∀ a c t, s.SeenFrom t → R t a c → Reads I (f a) t (fun _ b => b = test c) E)
    (hmono : ∀ t u a c, Session.SeenFrom t u → R t a c → R u a c) :
    Reads I (xs.filterM f) s (fun t ys => List.Forall₂ (R t) ys (cs.filter test)) E := by
  induction xs generalizing s cs with
  | nil =>
    obtain rfl := List.forall₂_nil_left_iff.1 hxs
    rw [filterM_nil]
    exact reads_pure fun _ => .nil
  | cons x xs ih =>
    obtain ⟨c, cs, hc, hcs, rfl⟩ := List.forall₂_cons_left_iff.1 hxs
    rw [filterM_cons]
    refine (h x c s (.refl s) hc).bind fun b t _ hst hb => ?_
    refine (ih (hcs.imp fun a c => hmono s t a c hst)
      fun a c u htu => h a c u (hst.trans htu)).bind fun ys u _ htu hys => reads_pure fun _ => ?_
    rw [hb, List.filter_cons]
    split
    · exact .cons (hmono s u x c (hst.trans htu) hc) hys
    · exact hys

theorem reads_forM {f : α → Act Unit} {xs : List α} {P : α → Prop}
    (h : ∀ a ∈ xs, ∀ t, Reads I (f a) t (fun _ _ => P a) E) :
    Reads I (xs.forM f) s (fun _ _ => ∀ a ∈ xs, P a) E := by
  induction xs generalizing s with
  | nil => exact reads_pure fun _ => by simp
  | cons x xs ih =>
    exact (h x List.mem_cons_self s).bind fun _ t _ _ hx =>
      (ih fun a ha => h a (List.mem_cons_of_mem _ ha)).imp
        (fun _ _ _ _ hxs => List.forall_mem_cons.2 ⟨hx, hxs⟩) id

/-- However an action that reads ends, it keeps the property. -/
theorem Reads.keeps {P : Session → Session → α → Prop} {E : Session → Prop} {Q : α → Prop}
    (h : ∀ s, Reads I x s (P s) (E s)) (hp : ∀ s t a, I s → I t → P s t a → Q a) :
    Keeps I x Q :=
  fun s hs => (h s hs).imp (fun a t ⟨ht, _, ha⟩ => ⟨ht, hp s t a hs ht ha⟩) fun _ _ h => h.1

/-! ## Reading records -/

variable {c : Catalog} {D : Database}

theorem isRowOf_eq (hp : c.Plain) {m : Model} (hm : m ∈ c.models) (row : Row) :
    isRowOf c m row = pure (c.isKind m row) := by
  have hif : ∀ b : Bool, (if b = true then (pure true : Act Bool) else pure false) = pure b := by
    intro b
    cases b <;> rfl
  unfold isRowOf
  rw [hp.tables_eq m hm]
  exact hif (c.isKind m row)

theorem filterM_isRowOf (hp : c.Plain) {m : Model} (hm : m ∈ c.models) (rows : List Row) :
    rows.filterM (isRowOf c m) = pure (rows.filter (c.isKind m)) := by
  rw [funext (isRowOf_eq hp hm)]
  exact filterM_pure _ _

theorem reads_entry (r : Ref) :
    Reads I (entry r) s (fun t e => t = s ∧ s.known? r = some e) (s.known? r = none) := by
  intro hs
  unfold entry
  rw [ends_bind, ends_get]
  split
  · next e he => exact ⟨hs, .refl s, rfl, he⟩
  · next hn => exact ⟨hs, .refl s, hn⟩

variable (hI : c.Reading D I)

include hI

theorem reads_table (name : String) : Reads I (Act.table name) s
    (fun t x => t = s ∧ D.table name = .ok x) (∀ x, D.table name ≠ .ok x) := by
  intro hs
  have hdrafts := hI.drafts hs
  unfold Act.table database
  simp only [bind_assoc, ends_bind, ends_get, hdrafts.failed, Bool.false_eq_true, if_false,
    ends_pure, hdrafts.db]
  cases D.table name with
  | ok x => exact ⟨hs, .refl s, rfl, rfl⟩
  | error f => exact ⟨hs, .refl s, by simp⟩

variable (hp : c.Plain) (hD : c.Sound D)

include hp hD

theorem reads_recordOf {m : Model} {row : Row} (h : c.NewRow D m row) :
    Reads I (recordOf c m row) s (fun t r => t.HoldsRow r m.rootTable row) False := by
  intro hs
  unfold recordOf
  rw [ends_bind, ends_get]
  obtain ⟨k, hkey, hrow⟩ := h.keyValues hp
  have hid : Row.get row "id" = .int k := by simpa [hp.keyNames m h.1] using hkey
  dsimp only
  split
  · next e he =>
    have hmem := List.mem_of_find?_eq_some he
    have hcond := List.find?_some he
    simp only [Bool.and_eq_true, beq_iff_eq] at hcond
    obtain ⟨j, r, hj, -⟩ := ((hI.drafts hs).draft e hmem).stored hcond.1.1
    have hjk : j = k := by simpa [hj, hkey] using hcond.2
    exact ⟨hs, .refl s, k, hid, e, hmem, rfl, hcond.1.1, hcond.1.2, by rw [hj, hjk]⟩
  · next hnew =>
    obtain ⟨t, ht, hmem, -⟩ := hD.row?_eq_some.1 hrow
    obtain ⟨htmem, hname⟩ := Database.table_mem ht
    obtain ⟨n, hn, hmodel, hroot, -⟩ := (hD.row t htmem row hmem).kind m h.1 hname.symm
    rw [hmodel]
    simp only [ends_bind, ends_ofExcept_ok, ends_set, ends_pure]
    exact ⟨hI.receive hs h hmodel hnew, .receive s _ _ _, k, hid, _,
      List.mem_append_right _ List.mem_cons_self, rfl, rfl, hroot.trans hname, hkey⟩

/-- There is one record for each row, in the order of their keys. -/
theorem reads_recordsOf {m : Model} {rows : List Row} (h : ∀ row ∈ rows, c.NewRow D m row) :
    Reads I (recordsOf c m rows) s (fun t rs =>
      List.Forall₂ (fun r row => t.HoldsRow r m.rootTable row) rs (m.inKeyOrder rows)) False := by
  change Reads I ((m.inKeyOrder rows).mapM (recordOf c m)) s _ _
  refine (reads_mapM (P := fun t row r => t.HoldsRow r m.rootTable row) (fun row hrow t _ _ =>
    reads_recordOf hI hp hD (h row (Model.mem_inKeyOrder.1 hrow))) ?_).imp
      (fun t rs _ _ hrs => hrs.flip) id
  exact fun t u row r htu hr => hr.mono htu

omit hI hp in
theorem newRow_of_mem {m : Model} (hm : m ∈ c.models) {t : Table}
    (ht : D.table m.rootTable = .ok t) {row : Row} (hrow : row ∈ t.rows) : c.NewRow D m row := by
  obtain ⟨k, hk, -⟩ := (hD.row t (Database.table_mem ht).1 row hrow).key
  exact ⟨hm, k, hk, hD.row?_eq_some.2 ⟨t, ht, hrow, hk⟩⟩

/-- The records of a model are those of the rows that are of the model, in order. -/
theorem reads_all {m : Model} (hm : m ∈ c.models) : Reads I (all c m) s
    (fun t rs => List.Forall₂ (fun r row => t.HoldsRow r m.rootTable row) rs
      (m.inKeyOrder ((D.rowsOf m.rootTable).filter (c.isKind m)))) False := by
  obtain ⟨t, ht, -⟩ := hD.table hp hm
  unfold all
  refine ((reads_table hI _).imp (fun _ _ _ _ h => h) fun h => h t ht).bind ?_
  rintro t _ - - ⟨rfl, ht⟩
  rw [filterM_isRowOf hp hm, pure_bind, Database.rowsOf_eq ht]
  exact reads_recordsOf hI hp hD fun row hrow =>
    newRow_of_mem hD hm ht (List.mem_filter.1 hrow).1

/-- The store can hold the number. -/
def InStore (n : Int) : Prop := -storeIntegerBound ≤ n ∧ n < storeIntegerBound

/-- What looking for a key among the records of a model gives. -/
structure Found (c : Catalog) (D : Database) (t : Session) (m : Model) (key : List Value)
    (o : Option Ref) : Prop where
  holds : ∀ r, o = some r → ∃ k, t.Holds r m.rootTable k ∧ ∀ j, key = [.int j] → k = j
  isSome : ∀ k row, key = [.int k] → D.row? m.rootTable k = some row →
    c.isKind m row = true → o.isSome = true
  kind : ∀ k row, key = [.int k] → D.row? m.rootTable k = some row → o.isSome = true →
    c.isKind m row = true
  inRange : ∀ k, key = [.int k] → InStore k

/-- A part of the key is a number that the store cannot hold, or a torn text. -/
def Unstorable (key : List Value) : Prop :=
  (∃ n, .int n ∈ key ∧ ¬InStore n) ∨ ∃ t, .torn t ∈ key

/-- No row has the key. -/
def Missing (D : Database) (m : Model) (key : List Value) : Prop :=
  ∀ k, key = [.int k] → D.row? m.rootTable k = none

omit hI hp in
theorem inStore_of_row? {name : String} {k : Int} {row : Row} (h : D.row? name k = some row) :
    InStore k := by
  obtain ⟨hlow, hhigh⟩ := hD.number_range h
  exact ⟨by unfold storeIntegerBound; omega, hhigh⟩

omit hI hp in
theorem Unstorable.missing {m : Model} {key : List Value} (h : Unstorable key) :
    Missing D m key := by
  rintro k rfl
  rcases h with ⟨n, hn, hlarge⟩ | ⟨t, ht⟩
  · obtain rfl := Value.int.inj (List.mem_singleton.1 hn)
    exact Option.eq_none_iff_forall_ne_some.2 fun row hrow => hlarge (inStore_of_row? hD hrow)
  · cases List.mem_singleton.1 ht

omit hI hp hD in
theorem reads_checkRange (key : List Value) (v : Value) (hv : v ∈ key) :
    Reads I (checkRange v) s (fun _ _ => ∀ n, v = .int n → InStore n) (Unstorable key) := by
  unfold checkRange
  split
  · next n =>
    unfold storeInteger
    split
    · next hn => exact reads_pure fun _ n' hn' => Value.int.inj hn' ▸ hn
    · next hn => exact reads_throw fun _ => .inl ⟨n, hv, hn⟩
  · next t => exact reads_throw fun _ => .inr ⟨t, hv⟩
  · next hno _ => exact reads_pure fun _ n hn => absurd hn (hno n)

theorem reads_row? {m : Model} (hm : m ∈ c.models) (key : List Value) :
    Reads I (row? m.rootTable key) s (fun t o => t = s ∧
      ∃ x, D.table m.rootTable = .ok x ∧ o = x.find? key) False := by
  obtain ⟨t, ht, -⟩ := hD.table hp hm
  refine ((reads_table hI _).imp (fun _ _ _ _ h => h) fun h => h t ht).bind ?_
  rintro x _ - - ⟨rfl, hx⟩
  exact reads_pure fun _ => ⟨rfl, x, hx, rfl⟩

theorem reads_fetch {m : Model} (hm : m ∈ c.models) (key : List Value) : Reads I (fetch c m key) s
    (fun t o => Found c D t m key o) (Unstorable key) := by
  refine (reads_forM fun v hv t => reads_checkRange key v hv).bind fun _ t _ _ hrange => ?_
  have hrange : ∀ k, key = [.int k] → InStore k := fun k hk => hrange (.int k) (by simp [hk]) k rfl
  refine ((reads_row? hI hp hD hm key).imp (fun _ _ _ _ h => h) False.elim).bind ?_
  rintro o _ - - ⟨rfl, x, hx, rfl⟩
  have hfound : ∀ k, key = [.int k] → x.find? key = D.row? m.rootTable k := by
    rintro k rfl
    exact hD.find? hp hx k
  cases hfind : x.find? key with
  | none =>
    refine reads_pure fun _ => ⟨by simp, fun k row hk hrow _ => ?_, by simp, hrange⟩
    rw [hfound k hk, hrow] at hfind
    cases hfind
  | some row =>
    have hnew := newRow_of_mem hD hm hx (List.mem_of_find?_eq_some hfind)
    have hkey := List.find?_some hfind
    have hsame : ∀ k row', key = [.int k] → D.row? m.rootTable k = some row' → row = row' := by
      intro k row' hk hrow'
      rw [hfound k hk, hrow'] at hfind
      exact (Option.some.inj hfind).symm
    simp only [isRowOf_eq hp hm, pure_bind]
    refine reads_ite (fun hkind => ?_) fun hkind => ?_
    · refine Reads.map ((reads_recordOf hI hp hD hnew).imp (fun u r _ _ hr => ?_) False.elim)
      obtain ⟨k, hk, hr⟩ := hr
      refine ⟨fun r' hr' => ⟨k, Option.some.inj hr' ▸ hr, fun j hj => ?_⟩, fun _ _ _ _ _ => rfl,
        fun j row' hj hrow' _ => hsame j row' hj hrow' ▸ hkind, hrange⟩
      rw [hD.keyOf hp (Database.table_mem hx).1, hk, hj] at hkey
      simpa using hkey
    · exact reads_pure fun _ => ⟨by simp, fun k row' hk hrow' hkind' =>
        absurd (hsame k row' hk hrow' ▸ hkind') hkind, by simp, hrange⟩

theorem reads_find {m : Model} (hm : m ∈ c.models) (key : List Value) : Reads I (find c m key) s
    (fun t o => Found c D t m key o) (Unstorable key) := by
  unfold find
  refine reads_get.bind ?_
  rintro _ _ hs - ⟨rfl, rfl⟩
  split
  · next e he =>
    have hmem := List.mem_of_find?_eq_some he
    have hcond := List.find?_some he
    simp only [Bool.and_eq_true, beq_iff_eq] at hcond
    have hdraft := (hI.drafts hs).draft e hmem
    obtain ⟨k, row, hk, hrow, hmodel⟩ := hdraft.stored hcond.1.1
    rw [hcond.1.2] at hrow
    have hj : ∀ j, key = [.int j] → k = j := by
      intro j hj
      simpa [hk, hj] using hcond.2
    have hkind : ∀ j row', key = [.int j] → D.row? m.rootTable j = some row' →
        (c.isKind m row' = true ↔ e.model.extends_ m.name = true) := by
      intro j row' hkey hrow'
      obtain rfl := hj j hkey
      obtain rfl := Option.some.inj (hrow.symm.trans hrow')
      exact ⟨Catalog.extends_of_isKind hp hm hdraft hcond.1.2 hmodel,
        Catalog.isKind_of_extends hp hm hdraft.model hcond.1.2 hmodel⟩
    refine reads_pure fun _ => ⟨fun r hr => ?_, fun j row' hkey hrow' h => ?_,
      fun j row' hkey hrow' h => ?_, fun j hkey => hj j hkey ▸ inStore_of_row? hD hrow⟩
    · split at hr
      · cases hr
        exact ⟨k, ⟨e, hmem, rfl, hcond.1.1, hcond.1.2, hk⟩, hj⟩
      · cases hr
    · rw [if_pos ((hkind j row' hkey hrow').1 h)]
      rfl
    · refine (hkind j row' hkey hrow').2 ?_
      by_contra hno
      rw [if_neg hno] at h
      cases h
  · exact reads_fetch hI hp hD hm key

end Act

end Hypermedia
