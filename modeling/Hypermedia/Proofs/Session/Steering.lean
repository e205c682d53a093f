import Hypermedia.Proofs.Session.Aiming
import Hypermedia.Proofs.Session.Linking

/-!
# Changing what a session is to write

Giving a link to one another record changes one cell, and both lists that the record leaves and
joins (`Act.ends_setOne`). Giving a list other records changes the cells of all of them, and takes
them out of the lists where they were (`Act.ends_setMany`).

Either is a chain of changes to single links. The aim is changed first, then one link after the
other is brought up to it; what the rest of the links tell does not depend on the cells that
changed (`Catalog.Tells.put`).
-/

namespace Hypermedia

namespace Cells

variable (G : Cells) (table column : String) (k : Int) (w : Value)

theorem put_self : G.put table column k w table column k = w := by
  simp [put, change]

theorem put_of_ne {t x : String} {j : Int} (h : ¬(t = table ∧ x = column ∧ j = k)) :
    G.put table column k w t x j = G t x j := by
  unfold put change
  by_cases htx : t = table ∧ x = column
  · rw [if_pos htx]
    exact if_neg fun hj => h ⟨htx.1, htx.2, hj⟩
  · rw [if_neg htx]

/-- A cell that has the value already. -/
theorem put_eq_self (h : G table column k = w) : G.put table column k w = G := by
  funext t x j
  by_cases hcell : t = table ∧ x = column ∧ j = k
  · obtain ⟨rfl, rfl, rfl⟩ := hcell
    rw [put_self, h]
  · exact G.put_of_ne table column k w hcell

end Cells

namespace Session

variable {s : Session} {x y : Ref} {f g : Entry → Entry} {root : String} {k : Int}

theorem modify_congr (h : ∀ e ∈ s.entries, e.ref = x → f e = g e) :
    s.modify x f = s.modify x g := by
  unfold modify
  congr 1
  refine List.map_congr_left fun e he => ?_
  by_cases hx : e.ref = x
  · simp [hx, h e he hx]
  · simp [hx]

/-- A change that leaves the rows of records leaves the numbers by which they are known. -/
theorem Holds.modify (hf : ∀ e, (f e).ref = e.ref ∧ (f e).model = e.model ∧
    (f e).phase = e.phase ∧ (f e).key = e.key) (h : s.Holds y root k) :
    (s.modify x f).Holds y root k := by
  obtain ⟨e, he, rfl, hst, hroot, hkey⟩ := h
  obtain ⟨href, hmodel, hphase, hk⟩ := hf e
  refine ⟨if e.ref == x then f e else e, List.mem_map_of_mem he, ?_⟩
  split
  · exact ⟨href, (isStored_congr hphase).trans hst, hmodel ▸ hroot, hk.trans hkey⟩
  · exact ⟨rfl, hst, hroot, hkey⟩

end Session

namespace Catalog

variable {c : Catalog} {D : Database} {K : Ref → String → Int → Prop} {r : Ref}
  {N : Ref → String → Prop} {G G' : Cells} {H : Ref → String → Cells} {s : Session}
  {m t : Model} {l back : Link} {column : String}

/-- One link tells other cells. -/
def retold (H : Ref → String → Cells) (x : Ref) (name : String) (G : Cells) :
    Ref → String → Cells :=
  fun y n => if y = x ∧ n = name then G else H y n

@[simp] theorem retold_self (H : Ref → String → Cells) (x : Ref) (name : String) (G : Cells) :
    retold H x name G x name = G := by
  simp [retold]

@[simp] theorem retold_const (x : Ref) (name : String) (G : Cells) :
    retold (fun _ _ => G) x name G = fun _ _ => G := by
  funext y n
  simp [retold]

theorem retold_of_ne {x y : Ref} {name n : String} (h : ¬(y = x ∧ n = name)) :
    retold H x name G y n = H y n := if_neg h

/-- Other records may be counted on, as long as they are known. -/
theorem Aimed.recount {K' : Ref → String → Int → Prop} (h : c.Aimed D K r N G H s)
    (hK : ∀ x root k, K' x root k → s.Holds x root k) : c.Aimed D K' r N G H s :=
  { h with holds := hK }

/-- All records that are known may be counted on. -/
theorem Aimed.counting (h : c.Aimed D K r N G H s) : c.Aimed D s.Holds r N G H s :=
  h.recount fun _ _ _ hx => hx

/-- What was counted on is known as long as all that was known is. -/
theorem Aimed.counted {u : Session} {G' : Cells} {N' : Ref → String → Prop}
    {H' : Ref → String → Cells} (h : c.Aimed D K r N G H s)
    (hu : c.Aimed D s.Holds r N' G' H' u) : c.Aimed D K r N' G' H' u :=
  hu.recount fun x root k hx => hu.holds x root k (h.holds x root k hx)

section

variable (hs : c.Drafts D s) (hp : c.Plain)

include hs hp

theorem Drafts.entry_of_holds (ha : c.isAlone m = true) (hm : m ∈ c.models) {x : Ref} {k : Int}
    (hx : s.Holds x m.rootTable k) :
    ∃ e ∈ s.entries, e.ref = x ∧ e.model = m ∧ e.key = [.int k] ∧ e.isStored = true := by
  obtain ⟨e, he, href, hst, hroot, hkey⟩ := hx
  have hdraft := hs.draft e he
  have hname := isAlone_eq ha hdraft.model hroot
  exact ⟨e, he, href, Option.some.inj ((hp.model?_eq hdraft.model).symm.trans
    (hname ▸ hp.model?_eq hm)), hkey, hst⟩

omit hs in
/-- A pair is the only one that depends on a column. -/
theorem Pair.unique (hpaired : c.Paired) (hpair : c.Pair m l column t back) {m' t' : Model}
    {l' back' : Link} (hpair' : c.Pair m' l' column t' back') (hroot : m'.rootTable = m.rootTable) :
    m' = m ∧ l' = l ∧ t' = t ∧ back' = back := by
  have hname := isAlone_eq hpair.alone hpair'.mem hroot
  obtain rfl : m' = m := Option.some.inj ((hp.model?_eq hpair'.mem).symm.trans
    (hname ▸ hp.model?_eq hpair.mem))
  obtain rfl := hpair.eq_of_kind hpaired hpair'.link hpair'.kind
  obtain rfl := Option.some.inj (hpair'.target.symm.trans hpair.target)
  exact ⟨rfl, rfl, rfl, Option.some.inj (hpair'.inverse.symm.trans hpair.inverse)⟩

/-- What a link tells does not depend on a cell of another record, unless it is a list which the
other record leaves or joins. -/
theorem Tells.put (hpaired : c.Paired) (hpair : c.Pair m l column t back) {x : Ref} {j : Int}
    (hx : s.Holds x m.rootTable j) {w : Value} {e : Entry} (he : e ∈ s.entries)
    (hst : e.isStored = true) {l' : Link} (hl' : l' ∈ e.model.links)
    (hself : ¬(e.ref = x ∧ l'.name = l.name))
    (hlist : l'.name = back.name → ∀ k, s.Holds e.ref t.rootTable k →
      G m.rootTable column j ≠ .int k ∧ w ≠ .int k) {st : LinkState}
    (h : c.Tells D G r s e l' st) : c.Tells D (G.put m.rootTable column j w) r s e l' st := by
  have hdraft := hs.draft e he
  refine h.congr (fun y k hk hkey => G.put_of_ne _ _ _ _ ?_) fun y t' k hk ht' hkey i => ?_
  · rintro ⟨hroot, rfl, rfl⟩
    have hheld : s.Holds e.ref m.rootTable k := ⟨e, he, rfl, hst, hroot, hkey⟩
    obtain ⟨t', back', hpair'⟩ := hpaired.of_reference hp hdraft.model hl' hk
    obtain ⟨-, rfl, -⟩ := hpair.unique hp hpaired hpair' hroot
    exact hself ⟨hs.eq_of_holds hheld hx, rfl⟩
  · by_cases hcell : t'.rootTable = m.rootTable ∧ y = column ∧ i = j
    · obtain ⟨hroot, rfl, rfl⟩ := hcell
      obtain ⟨m', l₁, hpair'⟩ := hpaired.of_members hp hdraft.model hl' hk
      obtain rfl := Option.some.inj (hpair'.backTarget.symm.trans ht')
      obtain ⟨rfl, rfl, hmodel, rfl⟩ := hpair.unique hp hpaired hpair' hroot
      obtain ⟨hG, hw⟩ := hlist rfl k ⟨e, he, rfl, hst, congrArg Model.rootTable hmodel, hkey⟩
      rw [Cells.put_self]
      exact ⟨fun h => absurd h hw, fun h => absurd h hG⟩
    · rw [G.put_of_ne _ _ _ _ hcell]

end

section

variable (hp : c.Plain)

include hp

/-- The records that a link tells of are records of its target. -/
theorem Tells.model_of_refs (hs : c.Drafts D s) {e : Entry} (he : e ∈ s.entries)
    (hst : e.isStored = true) (hl : l ∈ e.model.links) {st : LinkState}
    (h : c.Tells D G r s e l st) : ∀ x ∈ st.refs, x.model = l.target := by
  have hdraft := hs.draft e he
  obtain ⟨k, -, hkey, -⟩ := hdraft.stored hst
  obtain ⟨t, ht, hspec⟩ := hp.linkSpec hdraft.model hl
  have hmodel : ∀ {x j}, s.Holds x t.rootTable j → x.model = l.target := fun hx =>
    (hs.model_of_holds hspec.alone hx).trans (model?_mem ht).2
  have hnames : ∀ {xs v}, s.Names t.rootTable xs v → ∀ x ∈ xs, x.model = l.target := by
    intro xs v hxs x hx
    cases hxs with
    | nothing => cases hx
    | one ho => exact List.mem_singleton.1 hx ▸ hmodel ho
  intro x hx
  cases hk : l.kind with
  | reference column =>
    have haims := h.one column t k hk ht hkey
    cases st with
    | unread added removed =>
      obtain ⟨rfl, rfl, -⟩ := haims.unread _ _ rfl
      cases hx
    | read before now =>
      rcases List.mem_append.1 hx with hx | hx
      · cases before with
        | none => cases hx
        | some b => exact hnames (haims.before b now rfl) x hx
      · exact hnames (haims.now before now rfl) x hx
  | members column =>
    have hcounts := h.many column t k hk ht hkey
    cases st with
    | unread added removed =>
      rcases List.mem_append.1 hx with hx | hx
      · exact (hcounts.joined x hx).elim fun _ hj => hmodel hj.1
      · exact (hcounts.left x hx).elim fun _ hj => hmodel hj.1
    | read before now =>
      obtain ⟨xs, rfl, hxs⟩ := hcounts.before before now rfl
      by_cases hmem : x ∈ xs
      · exact (hxs.sound x hmem).elim fun _ hj => hmodel hj.1
      · have hnow : x ∈ now := (List.mem_append.1 hx).resolve_left hmem
        exact (hcounts.joined x (LinkState.mem_joined_read.2 ⟨hnow, hmem⟩)).elim
          fun _ hj => hmodel hj.1
  | pairs table own other => exact absurd hk (hspec.pairs table own other)

/-! ## Changes of one record -/

omit hp in
/-- A change of a record that leaves its row, its columns and its links leaves the aim. -/
theorem Aimed.alter (h : c.Aimed D K r N G H s) {x : Ref} {f : Entry → Entry}
    (hf : ∀ e, (f e).ref = e.ref ∧ (f e).model = e.model ∧ (f e).phase = e.phase ∧
      (f e).key = e.key ∧ (f e).values = e.values ∧ (f e).links = e.links ∧
        (f e).isDoomed = e.isDoomed)
    (hdraft : ∀ e, c.Draft D e → e.ref = x → c.Draft D (f e)) :
    c.Aimed D K r N G H (s.modify x f) := by
  have hseen : s.SeenFrom (s.modify x f) := .modify s x fun e =>
    have ⟨h1, h2, h3, h4, h5, _⟩ := hf e
    ⟨h1, h2, h3, h4, h5⟩
  have hlink : ∀ e name, (f e).linkState name = e.linkState name := fun e name => by
    obtain ⟨-, -, hphase, -, -, hlinks, -⟩ := hf e
    simp [Entry.linkState, hlinks, Entry.isStored, hphase]
  refine ⟨h.toEdited.modify fun e he hx => ?_, fun e he => ?_, fun y root k hy =>
    (h.holds y root k hy).mono hseen, fun table y k hno => h.rest _ _ _ fun z hz =>
      hno z (hz.mono hseen), fun e he => ?_, fun e he l hl => ?_, fun e he l hl hlist hN => ?_⟩
  · obtain ⟨h1, h2, h3, h4, -, -, h7⟩ := hf e
    exact ⟨hdraft e he hx, h1, h2, Session.isStored_congr h3, h4, h7⟩
  all_goals obtain ⟨e₁, he₁, ⟨-, rfl⟩ | ⟨-, rfl⟩⟩ := Session.mem_modify he
  · exact (Session.isStored_congr (hf e₁).2.2.1).trans (h.stored e₁ he₁)
  · exact h.stored _ he₁
  · obtain ⟨-, h2, -, h4, h5, -⟩ := hf e₁
    have hgiven : ∀ name, (f e₁).given? name = e₁.given? name := fun name => by
      simp [Entry.given?, h5]
    have hsettles := h.settles e₁ he₁
    constructor <;> simp only [h2, h4, hgiven]
    · exact hsettles.kept
    · exact hsettles.given
  · exact h.settles _ he₁
  · obtain ⟨h1, h2, -, h4, -⟩ := hf e₁
    rw [h2] at hl
    rw [hlink, h1]
    exact ((h.tells e₁ he₁ l hl).mono hseen.numbers).of_entry h1 h2 h4
  · exact (h.tells _ he₁ l hl).mono hseen.numbers
  · obtain ⟨h1, h2, -⟩ := hf e₁
    rw [h2] at hl
    rw [h1] at hN
    exact hlink e₁ l.name ▸ h.neat e₁ he₁ l hl hlist hN
  · exact h.neat _ he₁ l hl hlist hN

/-- A link of a record is given another state, which tells the cells `G'`. -/
theorem Aimed.setLink (h : c.Aimed D K r N G H s) {e : Entry} (he : e ∈ s.entries)
    (hl : l ∈ e.model.links) {st : LinkState} (hst : c.Tells D G' r s e l st)
    (hd : l.isList = true → N e.ref l.name → st.Distinct) :
    c.Aimed D K r N G (retold H e.ref l.name G')
      (s.modify e.ref fun e => e.setLink l.name st) := by
  have hseen := Session.SeenFrom.setLink s e.ref l.name st
  have hmem := (h.draft e he).model
  have hrefs := hst.model_of_refs hp h.toDrafts he (h.stored e he) hl
  refine ⟨h.toEdited.modify fun e' he' href => ?_, fun e' he' => ?_, fun y root k hy =>
    (h.holds y root k hy).mono hseen, fun table y k hno => h.rest _ _ _ fun z hz =>
      hno z (hz.mono hseen), fun e' he' => ?_, fun e' he' l' hl' => ?_,
        fun e' he' l' hl' hlist hN => ?_⟩
  · refine ⟨he'.setLink fun l' hl' => ?_, rfl, rfl, rfl, rfl, rfl⟩
    have hmodel := he'.model_eq hp (h.draft e he) href
    have hsame := (hp.link?_eq hmem hl).symm.trans (hmodel ▸ hl')
    exact Option.some.inj hsame ▸ hrefs
  all_goals obtain ⟨e₁, he₁, ⟨href, rfl⟩ | ⟨hne, rfl⟩⟩ := Session.mem_modify he'
  · exact h.stored e₁ he₁
  · exact h.stored _ he₁
  · exact ⟨(h.settles e₁ he₁).kept, (h.settles e₁ he₁).given⟩
  · exact h.settles _ he₁
  · obtain rfl := Session.eq_of_ref_eq h.distinct he₁ he href
    change c.Tells D (retold H e₁.ref l.name G' e₁.ref l'.name) r _ _ l' _
    by_cases hname : l'.name = l.name
    · obtain rfl := hp.link_eq_of_name hmem hl' hl hname
      rw [Entry.linkState_setLink, retold_self]
      exact (hst.mono hseen.numbers).of_entry rfl rfl rfl
    · rw [Entry.linkState_setLink_of_ne _ hname, retold_of_ne fun h => hname h.2]
      exact ((h.tells e₁ he l' hl').mono hseen.numbers).of_entry rfl rfl rfl
  · rw [retold_of_ne fun h => hne h.1]
    exact (h.tells _ he₁ l' hl').mono hseen.numbers
  · obtain rfl := Session.eq_of_ref_eq h.distinct he₁ he href
    by_cases hname : l'.name = l.name
    · obtain rfl := hp.link_eq_of_name hmem hl' hl hname
      rw [Entry.linkState_setLink]
      exact hd hlist hN
    · rw [Entry.linkState_setLink_of_ne _ hname]
      exact h.neat e₁ he l' hl' hlist hN
  · exact h.neat _ he₁ l' hl' hlist hN

/-- The aim may be another one in a column that a link fills. -/
theorem Aimed.put (h : c.Aimed D K r N G H s) (hpair : c.Pair m l column t back) {x : Ref} {j : Int}
    (hx : s.Holds x m.rootTable j) (w : Value) :
    c.Aimed D K r N (G.put m.rootTable column j w) H s := by
  obtain ⟨y, hy, hto⟩ := (Option.any_eq_true _ _).1 hpair.refers
  have hsome : y.column.refersTo = some (t.rootTable, "id") := by simpa using hto
  have hother : ∀ e ∈ s.entries, ∀ k, e.key = [.int k] → ∀ name, (∀ z,
      e.model.column? name = some z → z.column.refersTo = none) →
        G.put m.rootTable column j w e.model.rootTable name k = G e.model.rootTable name k := by
    rintro e he k hkey name hfree
    refine G.put_of_ne _ _ _ _ ?_
    rintro ⟨hroot, rfl, rfl⟩
    obtain ⟨e', he', href', hmodel', -⟩ := h.toDrafts.entry_of_holds hp hpair.alone hpair.mem hx
    have hsame := h.toDrafts.eq_of_holds ⟨e, he, rfl, h.stored e he, hroot, hkey⟩ hx
    obtain rfl := Session.eq_of_ref_eq h.distinct he he' (hsame.trans href'.symm)
    subst hmodel'
    simp [hfree y hy] at hsome
  refine { h with rest := fun table y k hno => ?_, settles := fun e he => ⟨?_, ?_⟩ }
  · rw [G.put_of_ne, h.rest table y k hno]
    rintro ⟨rfl, rfl, rfl⟩
    exact hno x hx
  · intro k hkey name hfree hnone
    rw [hother e he k hkey name hfree]
    exact (h.settles e he).kept k hkey name hfree hnone
  · intro k hkey name z v u hz hto' hv hu
    rw [hother e he k hkey name fun z' hz' => Option.some.inj (hz.symm.trans hz') ▸ hto']
    exact (h.settles e he).given k hkey name z v u hz hto' hv hu

end

end Catalog

end Hypermedia
