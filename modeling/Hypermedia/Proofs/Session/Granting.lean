import Hypermedia.Proofs.Session.Filling
import Hypermedia.Proofs.Session.Gathering

/-!
# Giving what is wished

What is given to the fields of a record means what is wished of them if the records that it mentions
are those of the numbers in the wish (`Catalog.Means`). Giving it to the record changes the aim of
the session as granting the wish changes the cells: one field at a time (`Act.ends_assignField`),
and so a whole payload (`Act.ends_assign`).

A link to one may only be given something before any list: giving a list other records changes the
links of these to one, and the record itself may be among them.
-/

namespace Hypermedia

/-- The field of a name is a list of other records. -/
def Model.HasList (m : Model) (name : String) : Prop := ∃ l, m.link? name = some l ∧ l.isList = true

/-- No field is given something twice, and no link to one after a list. -/
def Model.IsOrderly (m : Model) (names : List String) : Prop :=
  names.Pairwise fun a b => a ≠ b ∧ (m.HasList a → ∀ l, m.link? b = some l → l.isList = true)

namespace Catalog

variable {c : Catalog} {D : Database} {K : Ref → String → Int → Prop} {r : Ref}
  {N : Ref → String → Prop} {G : Cells} {H : Ref → String → Cells} {s : Session}
  {m : Model}

/-- What is given to a field of a record is what is wished of it; the records under `K` are known by
their numbers. -/
inductive Means (c : Catalog) (K : Ref → String → Int → Prop) (m : Model) :
    String × Given Ref → String × Wish → Prop
  | value {name : String} (v : Value) (hl : m.link? name = none)
    (hown : ∀ x, m.column? name = some x → m.isOwn x.column = true) :
    Means c K m (name, .value v) (name, .value v)
  | nothing {name : String} {l : Link} (hl : m.link? name = some l) (hone : l.isList = false) :
    Means c K m (name, .value .null) (name, .one none)
  | one {name : String} {l : Link} {t : Model} {o : Ref} {k : Int} (hl : m.link? name = some l)
    (hone : l.isList = false) (ht : c.model? l.target = some t) (ho : K o t.rootTable k) :
    Means c K m (name, .record o) (name, .one (some k))
  | many {name : String} {l : Link} {t : Model} {xs : List Ref} {ks : List Int}
    (hl : m.link? name = some l) (hlist : l.isList = true) (ht : c.model? l.target = some t)
    (hxs : List.Forall₂ (fun x k => K x t.rootTable k) xs ks) :
    Means c K m (name, .records xs) (name, .many ks)

theorem Means.mono {K' : Ref → String → Int → Prop} {f : String × Given Ref} {w : String × Wish}
    (h : c.Means K m f w) (hK : ∀ x root k, K x root k → K' x root k) : c.Means K' m f w := by
  cases h with
  | value v hl hown => exact .value v hl hown
  | nothing hl hone => exact .nothing hl hone
  | one hl hone ht ho => exact .one hl hone ht (hK _ _ _ ho)
  | many hl hlist ht hxs => exact .many hl hlist ht (hxs.imp fun x k => hK x _ k)

/-! ## Giving values -/

section

variable (hp : c.Plain)

include hp

/-- What links tell does not depend on a column that refers to no other records. -/
theorem Tells.put_free (hpaired : c.Paired) (hm : m ∈ c.models) {x : MappedColumn} {name : String}
    (hx : m.column? name = some x) (hfree : x.column.refersTo = none) {k : Int} {w : Value}
    {e : Entry} (he : e.model ∈ c.models) {l : Link} (hl : l ∈ e.model.links) {st : LinkState}
    (h : c.Tells D G r s e l st) : c.Tells D (G.put m.rootTable name k w) r s e l st := by
  have hne : ∀ {m' t : Model} {l back : Link} {column : String}, c.Pair m' l column t back →
      ¬(m'.rootTable = m.rootTable ∧ column = name) := by
    rintro m' t l back column hpair ⟨hroot, rfl⟩
    have hname := isAlone_eq hpair.alone hm hroot.symm
    obtain rfl : m = m' := Option.some.inj ((hp.model?_eq hm).symm.trans
      (hname ▸ hp.model?_eq hpair.mem))
    obtain ⟨y, hy, hto⟩ := (Option.any_eq_true _ _).1 hpair.refers
    obtain rfl := Option.some.inj (hx.symm.trans hy)
    simp [hfree] at hto
  refine h.congr (fun column j hk _ => ?_) fun column t j hk ht _ i => ?_
  · obtain ⟨t, back, hpair⟩ := hpaired.of_reference hp he hl hk
    exact G.put_of_ne _ _ _ _ fun h => hne hpair ⟨h.1, h.2.1⟩
  · obtain ⟨m', l', hpair⟩ := hpaired.of_members hp he hl hk
    obtain rfl := Option.some.inj (hpair.backTarget.symm.trans ht)
    rw [G.put_of_ne _ _ _ _ fun h => hne hpair ⟨h.1, h.2.1⟩]

/-- A record is given a value that the store takes or refuses. -/
theorem Aimed.setValue (hpaired : c.Paired) (h : c.Aimed D K r N G (fun _ _ => G) s) {e : Entry}
    (he : e ∈ s.entries) {k : Int} (hkey : e.key = [.int k]) {x : MappedColumn} {name : String}
    (hx : e.model.column? name = some x) (hfree : x.column.refersTo = none) {v : Value}
    (hv : Accepts e.model name v) {G' : Cells}
    (hG : ∀ w, x.column.type.store v = .ok w → G' = G.put e.model.rootTable name k w)
    (hG' : ∀ f, x.column.type.store v = .error f → G' = G) :
    c.Aimed D K r N G' (fun _ _ => G') (s.modify e.ref fun e => e.setValue name v) := by
  have hmem := (h.draft e he).model
  have hother : ∀ table y j, ¬(table = e.model.rootTable ∧ y = name ∧ j = k) →
      G' table y j = G table y j := fun table y j hne => by
    cases hstore : x.column.type.store v with
    | ok w => rw [hG w hstore, G.put_of_ne _ _ _ _ hne]
    | error f => rw [hG' f hstore]
  have htells : ∀ e₁ ∈ s.entries, ∀ l ∈ e₁.model.links, ∀ st, c.Tells D G r s e₁ l st →
      c.Tells D G' r s e₁ l st := fun e₁ he₁ l hl st hst => by
    cases hstore : x.column.type.store v with
    | ok w => exact hG w hstore ▸ hst.put_free hp hpaired hmem hx hfree (h.draft e₁ he₁).model hl
    | error f => exact hG' f hstore ▸ hst
  have hnumbers : s.NumbersFrom (s.modify e.ref fun e => e.setValue name v) := fun _ _ _ =>
    Session.Holds.modify fun _ => ⟨rfl, rfl, rfl, rfl⟩
  have hself : s.Holds e.ref e.model.rootTable k := ⟨e, he, rfl, h.stored e he, rfl, hkey⟩
  refine ⟨h.toEdited.give hp ((h.draft e he).model?_eq hp) hv, fun e' he' => ?_,
    fun y root j hy => hnumbers _ _ _ (h.holds y root j hy), fun table y j hno => ?_,
    fun e' he' => ?_, fun e' he' l hl => ?_, fun e' he' l hl hlist hN => ?_⟩
  on_goal 2 =>
    rw [hother table y j]
    · exact h.rest table y j fun z hz => hno z (hnumbers _ _ _ hz)
    · rintro ⟨rfl, -, rfl⟩
      exact hno e.ref (hnumbers _ _ _ hself)
  all_goals obtain ⟨e₁, he₁, ⟨href, rfl⟩ | ⟨hne, rfl⟩⟩ := Session.mem_modify he'
  · exact h.stored e₁ he₁
  · exact h.stored _ he₁
  · obtain rfl := Session.eq_of_ref_eq h.distinct he₁ he href
    refine ⟨fun j hj name' hfree' hnone => ?_, fun j hj name' x' v' w hx' hto hgiven hw => ?_⟩
    · rw [Entry.given?_setValue] at hnone
      split at hnone
      · cases hnone
      · next hname =>
        change G' e₁.model.rootTable name' j = _
        rw [hother _ _ _ fun h => hname h.2.1]
        exact (h.settles e₁ he).kept j hj name' hfree' hnone
    · rw [Entry.given?_setValue] at hgiven
      split at hgiven
      · next hname =>
        subst hname
        obtain rfl := Option.some.inj hgiven
        obtain rfl := Option.some.inj (hx.symm.trans hx')
        obtain rfl : k = j := Value.int.inj (List.cons.inj (hkey.symm.trans hj)).1
        rw [hG w hw]
        exact G.put_self _ _ _ _
      · next hname =>
        change G' e₁.model.rootTable name' j = _
        rw [hother _ _ _ fun h => hname h.2.1]
        exact (h.settles e₁ he).given j hj name' x' v' w hx' hto hgiven hw
  · have hrow : ∀ j, e'.key = [.int j] → ∀ name', G' e'.model.rootTable name' j =
        G e'.model.rootTable name' j := fun j hj name' => hother _ _ _ fun ⟨hroot, _, heq⟩ =>
      hne (h.toDrafts.eq_of_holds ⟨e', he₁, rfl, h.stored e' he₁, hroot, heq ▸ hj⟩ hself)
    refine ⟨fun j hj name' hfree' hnone => ?_, fun j hj name' x' v' w hx' hto hgiven hw => ?_⟩
    · rw [hrow j hj]
      exact (h.settles e' he₁).kept j hj name' hfree' hnone
    · rw [hrow j hj]
      exact (h.settles e' he₁).given j hj name' x' v' w hx' hto hgiven hw
  · exact ((htells e₁ he₁ l hl _ (h.tells e₁ he₁ l hl)).mono hnumbers).of_entry rfl rfl rfl
  · exact (htells e' he₁ l hl _ (h.tells e' he₁ l hl)).mono hnumbers
  · exact h.neat e₁ he₁ l hl hlist hN
  · exact h.neat e' he₁ l hl hlist hN

/-- A link to one of a plain catalog is a column. -/
theorem Plain.reference_of_isOne {l : Link} (hm : m ∈ c.models) (hl : l ∈ m.links)
    (hone : l.isList = false) : ∃ column, l.kind = .reference column := by
  obtain ⟨t, -, hspec⟩ := hp.linkSpec hm hl
  cases hk : l.kind with
  | reference column => exact ⟨column, rfl⟩
  | members column => simp [(hspec.members column hk).1] at hone
  | pairs table own other => exact absurd hk (hspec.pairs table own other)

/-- Granting what is wished of a field leaves the cells of a column that the field does not fill,
be it with a value, as a link to one or as the way back of a list. -/
theorem Means.grant_eq (hm : m ∈ c.models) {f : String × Given Ref} {w : String × Wish}
    (h : c.Means K m f w) {column : String}
    (hvalue : ∀ x, m.column? f.1 = some x → m.isOwn x.column = true → f.1 ≠ column)
    (hone : ∀ l, m.link? f.1 = some l → l.kind ≠ .reference column)
    (hmany : ∀ l t, m.link? f.1 = some l → c.model? l.target = some t → l.kind = .members column →
      m.rootTable ≠ t.rootTable) (k j : Int) :
    Cells.grant c m k G w m.rootTable column j = G m.rootTable column j := by
  have hput : ∀ {name : String} {l : Link} (number : Option Int), m.link? name = some l →
      l.isList = false → (∀ l, m.link? name = some l → l.kind ≠ .reference column) →
        Cells.grant c m k G (name, .one number) m.rootTable column j = G m.rootTable column j := by
    intro name l number hl hlone hone
    obtain ⟨column', hkind⟩ :=
      hp.reference_of_isOne hm (List.mem_of_find?_eq_some hl) hlone
    simp only [Cells.grant, hl, hkind]
    refine G.put_of_ne _ _ _ _ ?_
    rintro ⟨-, rfl, -⟩
    exact hone l hl hkind
  cases h with
  | value v hl hown =>
    simp only [Cells.grant, hl]
    cases hw : (m.column? _).bind fun x => x.column.settled? c.hasRoom v with
    | none => rfl
    | some w =>
      obtain ⟨x, hx, -⟩ := Option.bind_eq_some_iff.1 hw
      refine G.put_of_ne _ _ _ _ ?_
      rintro ⟨-, rfl, -⟩
      exact hvalue x hx (hown x hx) rfl
  | nothing hl hlone => exact hput none hl hlone hone
  | one hl hlone _ _ => exact hput (some _) hl hlone hone
  | @many name l t xs js hl hlist ht _ =>
    obtain ⟨column', hkind⟩ := hp.members_of_isList hm (List.mem_of_find?_eq_some hl) hlist
    simp only [Cells.grant, hl, hkind, ht]
    refine if_neg ?_
    rintro ⟨hroot, rfl⟩
    exact hmany l t hl ht hkind hroot

/-- Granting what is wished of other fields than a list leaves the column that a link fills. -/
theorem Means.grant_of_ne (hpaired : c.Paired) (hm : m ∈ c.models) {l : Link} (hl : l ∈ m.links)
    {column : String} (hkind : l.kind = .reference column) {f : String × Given Ref}
    {w : String × Wish} (h : c.Means K m f w) (hne : f.1 ≠ l.name)
    (hone : ∀ l', m.link? f.1 = some l' → l'.isList = false) (k : Int) :
    Cells.grant c m k G w m.rootTable column k = G m.rootTable column k := by
  obtain ⟨t, back, hpair⟩ := hpaired.of_reference hp hm hl hkind
  refine h.grant_eq hp hm (fun x hx hown => ?_) (fun l' hl' hkind' => ?_)
    (fun l' t' hl' _ hkind' => ?_) k k
  · rintro rfl
    obtain ⟨y, hy, hto⟩ := (Option.any_eq_true _ _).1 hpair.refers
    obtain rfl := Option.some.inj (hx.symm.trans hy)
    have hto : x.column.refersTo = some (t.rootTable, "id") := by simpa using hto
    simp [Model.isOwn, hto] at hown
  · obtain rfl := hpair.eq_of_kind hpaired (List.mem_of_find?_eq_some hl') hkind'
    have hname : l'.name = f.1 := by simpa using List.find?_some hl'
    exact hne hname.symm
  · obtain ⟨t', -, hspec⟩ := hp.linkSpec hm (List.mem_of_find?_eq_some hl')
    have hlist := (hspec.members column hkind').1
    simp [hone l' hl'] at hlist

/-- Granting what is wished leaves what tells the model of the rows of a table. -/
theorem Means.grant_kind (hm : m ∈ c.models) {f : String × Given Ref} {w : String × Wish}
    (h : c.Means K m f w) {column : String} (hcolumn : m.discriminator = some column) (k j : Int) :
    Cells.grant c m k G w m.rootTable column j = G m.rootTable column j := by
  -- The column refers to no other records, in whatever model of the table.
  have hfree : ∀ n ∈ c.models, n.rootTable = m.rootTable → ∀ root,
      n.refers column root = false := fun n hn hroot root => by
    have hkind := hp.kind n hn column ((hp.sameKind n hn m hm hroot).trans hcolumn)
    obtain ⟨x, hx, hcond⟩ := (Option.any_eq_true _ _).1 hkind
    simp only [Bool.and_eq_true, Option.isNone_iff_eq_none] at hcond
    simp [Model.refers, hx, hcond.2]
  refine h.grant_eq hp hm (fun x hx hown => ?_) (fun l hl hkind => ?_)
    (fun l t hl ht hkind hroot => ?_) k j
  · rintro rfl
    have hname : x.column.name = f.1 := by simpa using List.find?_some hx
    simp [Model.isOwn, hcolumn, hname] at hown
  · obtain ⟨t, -, hspec⟩ := hp.linkSpec hm (List.mem_of_find?_eq_some hl)
    exact absurd (hspec.reference column hkind).2 (by simp [hfree m hm rfl])
  · obtain ⟨t', ht', hspec⟩ := hp.linkSpec hm (List.mem_of_find?_eq_some hl)
    obtain rfl := Option.some.inj (ht.symm.trans ht')
    exact absurd (hspec.members column hkind).2
      (by simp [hfree t (model?_mem ht).1 hroot.symm])

/-- Granting wishes leaves what tells the model of the rows of a table. -/
theorem grantAll_kind (hm : m ∈ c.models) {fields : List (String × Given Ref)}
    {ws : List (String × Wish)} (h : List.Forall₂ (c.Means K m) fields ws) {column : String}
    (hcolumn : m.discriminator = some column) (k j : Int) :
    Cells.grantAll c m k G ws m.rootTable column j = G m.rootTable column j := by
  induction h generalizing G with
  | nil => rfl
  | cons hw _ ih =>
    rw [Cells.grantAll, List.foldl_cons]
    exact ih.trans (hw.grant_kind hp hm hcolumn k j)

end

end Catalog

namespace Act

open Catalog

/-- Giving something to a field that is a link gives it to the link. -/
theorem ends_assignField_link {c : Catalog} {s : Session} {r : Ref} {e : Entry} {name : String}
    {l : Link} {x : Given Ref} {P : Unit → Session → Prop} {E : Fault → Session → Prop}
    (he : s.known? r = some e) (hl : e.model.link? name = some l)
    (h : Ends (if l.isList then assignMany c r l x else assignOne c r l x) s P E) :
    Ends (assignField c r name x) s P E := by
  unfold assignField
  rw [ends_bind]
  refine ends_entry he ?_
  rw [hl]
  exact h

variable {c : Catalog} {D : Database} {K : Ref → String → Int → Prop} {r : Ref}
  {N : Ref → String → Prop} {G : Cells} {s : Session} {m : Model} (hp : c.Plain) (hD : c.Sound D)
  (hpaired : c.Paired) (hm : c.model? r.model = some m)

include hp hD hpaired hm

omit hD in
/-- Giving a value to a field that is no link grants the wish, or fails. -/
theorem ends_grantValue {name : String} {v : Value} (hl : m.link? name = none)
    (hown : ∀ x, m.column? name = some x → m.isOwn x.column = true)
    (h : c.Aimed D K r N G (fun _ _ => G) s) {k : Int} (hr : K r m.rootTable k) :
    Ends (assignField c r name (.value v)) s (fun _ u => c.Aimed D K r N
      (Cells.grant c m k G (name, .value v)) (fun _ _ => Cells.grant c m k G (name, .value v)) u)
      fun _ u => u.committed = D := by
  obtain ⟨e, he, rfl, -, -, hkey⟩ := h.holds _ _ _ hr
  obtain rfl : e.model = m := Option.some.inj (((h.draft e he).model?_eq hp).symm.trans hm)
  unfold assignField
  rw [ends_bind]
  refine ends_entry (h.toDrafts.known?_eq he) ?_
  rw [hl]
  cases hx : e.model.column? name with
  | none =>
    have hgrant : Cells.grant c e.model k G (name, .value v) = G := by simp [Cells.grant, hl, hx]
    rw [hgrant]
    exact h
  | some x =>
    have hname : x.column.name = name := by simpa using List.find?_some hx
    have hfree : x.column.refersTo = none := by
      have hown := hown x hx
      simp only [Model.isOwn, Bool.not_eq_true', Bool.or_eq_false_iff] at hown
      simpa using hown.1.2
    dsimp only [givenValue]
    cases hparse : x.column.type.parse c.hasRoom name v with
    | error f => exact h.committed
    | ok w =>
      rw [ofExcept_ok, pure_bind, ends_modifyEntry]
      refine Aimed.setValue hp hpaired h he hkey hx hfree
        ⟨x, hx, Or.inl ⟨hown x hx, ColumnType.holds_of_parse hparse⟩⟩ (fun u hu => ?_)
        fun f hf => ?_
      · simp [Cells.grant, hl, hx, Column.settled?, hname, hparse, hu, Except.toOption]
      · simp [Cells.grant, hl, hx, Column.settled?, hname, hparse, hf, Except.toOption]

/-- Giving another record, or none, to a link to one grants the wish while no list that is known
changed. -/
theorem ends_grantOne {name : String} {l : Link} (hl : m.link? name = some l)
    (hlone : l.isList = false) {new : Option Ref} {number : Option Int}
    (h : c.Aimed D K r N G (fun _ _ => G) s) {k : Int} (hr : K r m.rootTable k)
    (hN : ∀ y name, N y name)
    (hfresh : ∀ column, l.kind = .reference column →
      G m.rootTable column k = D.cells m.rootTable column k)
    (hnames : ∀ t, c.model? l.target = some t →
      s.Names t.rootTable new.toList (number.elim .null .int)) :
    Ends (setOne c r l new) s (fun _ u => c.Aimed D K r N
      (Cells.grant c m k G (name, .one number)) (fun _ _ => Cells.grant c m k G (name, .one number))
      u) fun _ u => u.committed = D := by
  have hmem := (model?_mem hm).1
  have hlmem := List.mem_of_find?_eq_some hl
  obtain ⟨column, hkind⟩ := hp.reference_of_isOne hmem hlmem hlone
  obtain ⟨t, back, hpair⟩ := hpaired.of_reference hp hmem hlmem hkind
  have hgrant : Cells.grant c m k G (name, .one number) =
      G.put m.rootTable column k (number.elim .null .int) := by
    simp only [Cells.grant, hl, hkind]
  rw [hgrant]
  exact ends_setOne hp hpair hD hpaired h (h.holds _ _ _ hr) (fun y => hN y _)
    (hfresh column hkind) (hnames t hpair.target)

/-- Giving other records to a list grants the wish. -/
theorem ends_grantMany {name : String} {l : Link} (hl : m.link? name = some l)
    (hlist : l.isList = true) {t : Model} (ht : c.model? l.target = some t) {xs : List Ref}
    {ks : List Int} (h : c.Aimed D K r N G (fun _ _ => G) s) {k : Int} (hr : K r m.rootTable k)
    (hxs : List.Forall₂ (fun x k => K x t.rootTable k) xs ks)
    (hN : ∀ y name, y ≠ r → N y name) :
    Ends (assignMany c r l (.records xs)) s (fun _ u => c.Aimed D K r
      (fun y n => N y n ∧ ¬(y = r ∧ n = l.name)) (Cells.grant c m k G (name, .many ks))
      (fun _ _ => Cells.grant c m k G (name, .many ks)) u) fun _ u => u.committed = D := by
  have hmem := (model?_mem hm).1
  have hlmem := List.mem_of_find?_eq_some hl
  obtain ⟨column, hkind⟩ := hp.members_of_isList hmem hlmem hlist
  obtain ⟨m', l', hpair⟩ := hpaired.of_members hp hmem hlmem hkind
  obtain rfl := Option.some.inj (ht.symm.trans hpair.backTarget)
  have hgrant : Cells.grant c m k G (name, .many ks) = G.gather t.rootTable column k ks := by
    simp only [Cells.grant, hl, hkind, ht]
  rw [hgrant]
  have hheld := h.holds _ _ _ hr
  have hknown : s.known? r ≠ none := by
    obtain ⟨e, he, rfl, -⟩ := hheld
    rw [h.toDrafts.known?_eq he]
    simp
  unfold assignMany
  refine (reads_settleLink (Drafts.reading hp hD) r l).ends_bind h.toDrafts
    (fun _ u _ _ hu => ?_) fun _ _ _ hno => absurd hno hknown
  subst hu
  exact ends_setMany hp hpair hD hpaired h hheld (hxs.imp fun x j hx => h.holds x _ j hx)
    fun y hy => hN y _ hy

/-- Giving a field what is wished of it grants the wish. Links to one have to be given something
before lists. -/
theorem ends_assignField {f : String × Given Ref} {w : String × Wish} (hw : c.Means K m f w)
    (h : c.Aimed D K r N G (fun _ _ => G) s) {k : Int} (hr : K r m.rootTable k)
    (hN : ∀ y name, y ≠ r → N y name)
    (hone : ∀ l column, m.link? f.1 = some l → l.kind = .reference column →
      (∀ name, N r name) ∧ G m.rootTable column k = D.cells m.rootTable column k) :
    Ends (assignField c r f.1 f.2) s (fun _ u => c.Aimed D K r
      (fun y name => N y name ∧ ¬(y = r ∧ m.HasList f.1)) (Cells.grant c m k G w)
      (fun _ _ => Cells.grant c m k G w) u) fun _ u => u.committed = D := by
  obtain ⟨e, he, rfl, -⟩ := h.holds _ _ _ hr
  obtain rfl : e.model = m := Option.some.inj (((h.draft e he).model?_eq hp).symm.trans hm)
  have hassign : ∀ {name : String} {l : Link}, e.model.link? name = some l → l.isList = false →
      (∀ l column, e.model.link? name = some l → l.kind = .reference column →
        (∀ name, N e.ref name) ∧
          G e.model.rootTable column k = D.cells e.model.rootTable column k) →
      ∀ new number, (∀ t, c.model? l.target = some t →
        s.Names t.rootTable new.toList (number.elim .null .int)) →
      Ends (setOne c e.ref l new) s (fun _ u => c.Aimed D K e.ref
        (fun y n => N y n ∧ ¬(y = e.ref ∧ e.model.HasList name))
        (Cells.grant c e.model k G (name, .one number))
        (fun _ _ => Cells.grant c e.model k G (name, .one number)) u)
        fun _ u => u.committed = D := by
    intro name l hl hlone hone new number hnames
    obtain ⟨column, hkind⟩ :=
      hp.reference_of_isOne (h.draft e he).model (List.mem_of_find?_eq_some hl) hlone
    have hall : ∀ y name, N y name := fun y name => by
      by_cases hy : y = e.ref
      · exact hy ▸ (hone l column hl hkind).1 name
      · exact hN y name hy
    exact (ends_grantOne hp hD hpaired hm hl hlone h hr hall
      (fun column hkind => (hone l column hl hkind).2) hnames).imp
        (fun _ u hu => hu.fewer fun _ _ h => h.1) fun _ _ h => h
  cases hw with
  | value v hl hown =>
    exact (ends_grantValue hp hpaired hm hl hown h hr).imp
      (fun _ u hu => hu.fewer fun _ _ h => h.1) fun _ _ h => h
  | nothing hl hlone =>
    refine ends_assignField_link (h.toDrafts.known?_eq he) hl ?_
    rw [hlone, if_neg Bool.false_ne_true]
    exact hassign hl hlone hone none none fun _ _ => .nothing
  | @one name l t o j hl hlone ht ho =>
    refine ends_assignField_link (h.toDrafts.known?_eq he) hl ?_
    rw [hlone, if_neg Bool.false_ne_true]
    refine hassign hl hlone hone (some o) (some j) fun t' ht' => ?_
    obtain rfl := Option.some.inj (ht.symm.trans ht')
    exact .one (h.holds _ _ _ ho)
  | @many name l t xs js hl hlist ht hxs =>
    refine ends_assignField_link (h.toDrafts.known?_eq he) hl ?_
    rw [hlist, if_pos rfl]
    refine (ends_grantMany hp hD hpaired hm hl hlist ht h hr hxs hN).imp
      (fun _ u hu => hu.fewer fun y n hNy => ⟨hNy.1, fun hy => ?_⟩) fun _ _ h => h
    exact hNy.2 ⟨hy.1, l, hl, hlist⟩

/-- Giving fields what is wished of them grants the wishes. -/
theorem ends_assign {fields : List (String × Given Ref)} {ws : List (String × Wish)}
    (hws : List.Forall₂ (c.Means K m) fields ws) (hnames : m.IsOrderly (fields.map Prod.fst))
    (h : c.Aimed D K r N G (fun _ _ => G) s) {k : Int} (hr : K r m.rootTable k)
    (hN : ∀ y name, y ≠ r → N y name)
    (hone : ∀ f ∈ fields, ∀ l column, m.link? f.1 = some l → l.kind = .reference column →
      (∀ name, N r name) ∧ G m.rootTable column k = D.cells m.rootTable column k) :
    Ends (assign c r fields) s (fun _ u => ∃ N', c.Aimed D K r N' (Cells.grantAll c m k G ws)
      (fun _ _ => Cells.grantAll c m k G ws) u) fun _ u => u.committed = D := by
  induction hws generalizing N G s with
  | nil => exact ⟨N, h⟩
  | @cons f w fields ws hw hrest ih =>
    rw [List.map_cons, Model.IsOrderly, List.pairwise_cons] at hnames
    obtain ⟨hbefore, hnames⟩ := hnames
    change Ends (assignField c r f.1 f.2 >>= fun _ => assign c r fields) s _ _
    rw [ends_bind]
    refine (ends_assignField hp hD hpaired hm hw h hr hN (hone f List.mem_cons_self)).imp
      (fun _ u hu => ?_) fun _ _ h => h
    refine ih hnames hu (fun y name hy => ⟨hN y name hy, fun hl => hy hl.1⟩)
      fun g hg l column hl hkind => ?_
    obtain ⟨hne, hlist⟩ := hbefore g.1 (List.mem_map_of_mem hg)
    have hmem := (model?_mem hm).1
    have hlmem := List.mem_of_find?_eq_some hl
    have hname : l.name = g.1 := by simpa using List.find?_some hl
    obtain ⟨t, -, hspec⟩ := hp.linkSpec hmem hlmem
    have hnot : ¬m.HasList f.1 := fun hf => by
      have hmany := hlist hf l hl
      simp [(hspec.reference column hkind).1] at hmany
    obtain ⟨hNr, hfresh⟩ := hone g (List.mem_cons_of_mem _ hg) l column hl hkind
    refine ⟨fun name => ⟨hNr name, fun hl => hnot hl.2⟩, ?_⟩
    rw [hw.grant_of_ne hp hpaired hmem hlmem hkind (fun heq => hne (heq.trans hname))
      (fun l' hl' => ?_), hfresh]
    by_contra hlist'
    exact hnot ⟨l', hl', by simpa using hlist'⟩

end Act

end Hypermedia
