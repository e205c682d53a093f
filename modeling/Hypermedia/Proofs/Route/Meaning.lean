import Hypermedia.Proofs.Graph.Judging
import Hypermedia.Proofs.Route.Formed

/-!
# What scopes mean

In a session that only reads, the entity that a formed scope means is that of a stored record,
and its record has the model of the type, where that is the only one in its table
(`Act.reads_scopeEntity`).
-/

namespace Hypermedia

namespace Catalog

variable {c : Catalog} {reg : Registry} {book : RuleBook}

/-- The record has the model of a type, where that is the only one in its table. -/
def Belongs (c : Catalog) (t : ResourceType) (r : Ref) : Prop :=
  ∀ m, t.model.bind c.ofClass? = some m → c.isAlone m = true → r.model = m.name

/-- A record of a type with relationships or finders has the model that the type presents. -/
theorem Exposed.model_of_belongs (hx : c.Exposed reg book) {t : ResourceType} (ht : t ∈ reg.types)
    (hsome : t.relationships ≠ [] ∨ t.finders ≠ []) {r : Ref} (hr : c.Belongs t r) :
    ∃ m, c.Presents reg book t m ∧ r.model = m.name := by
  obtain ⟨m, hm⟩ := hx.presents t ht
  exact ⟨m, hm, hr m hm.model (hx.alone t ht hsome m hm.model)⟩

theorem Known.model_eq (hp : c.Plain) {D : Database} {s : Session} {r : Ref} {m n : Model} {k : Int}
    {row : Row} (h : c.Known D s r m k row) (hn : n ∈ c.models) (hname : r.model = n.name) :
    m = n := by
  have hsome := hp.model?_eq h.mem
  rw [← h.name, hname, hp.model?_eq hn] at hsome
  exact (Option.some.inj hsome).symm

/-- An entity of a type with relationships or finders is that of a record of the model that the
type presents. -/
theorem Exposed.known_of_belongs (hp : c.Plain) (hx : c.Exposed reg book) {D : Database}
    {s : Session} {t : ResourceType} (ht : t ∈ reg.types)
    (hsome : t.relationships ≠ [] ∨ t.finders ≠ []) {e : Entity Ref}
    (he : ∃ m k row, c.Typed reg D s e m k row) (hbelongs : c.Belongs t e.record) :
    ∃ m k row, c.Presents reg book t m ∧ c.Known D s e.record m k row := by
  obtain ⟨m, k, row, htyped⟩ := he
  obtain ⟨n, hn, hname⟩ := hx.model_of_belongs ht hsome hbelongs
  obtain rfl := htyped.toKnown.model_eq hp (Act.ofClass?_mem hn.model) hname
  exact ⟨m, k, row, hn, htyped.toKnown⟩

end Catalog

namespace Act

variable {c : Catalog} {D : Database} {I : Session → Prop} {s : Session} {reg : Registry}
  {book : RuleBook} (hI : c.Reading D I) (hq : ∀ s, I s → c.Quiet D s) (hp : c.Plain)
  (hD : c.Sound D) (hx : c.Exposed reg book)

include hI hq hp hD hx

/-- The entity of an id is that of a stored record. -/
theorem reads_entityOf (t : ResourceType) (id : Value) :
    Reads I ((entitiesOf c reg book).graph.lookup t id) s
      (fun u o => ∀ e, o = some e → (∃ m k row, c.Typed reg D u e m k row) ∧
        c.Belongs t e.record) True := by
  refine ((reads_lookup hI hp hD t id).imp (fun _ _ _ _ h => h) fun _ => trivial).bind
    fun o u hu _ ⟨m, hm, hkey, hfound, _⟩ => reads_pure fun _ e he => ?_
  obtain ⟨r, rfl, rfl⟩ := Option.map_eq_some_iff.1 he
  obtain ⟨vs, hvs⟩ := hkey rfl
  obtain ⟨k, hk, -⟩ := (hfound vs hvs).holds r rfl
  obtain ⟨m', k', row, hknown⟩ := (hq u hu).known_of_stores hk.stores
  refine ⟨⟨m', k', row, hknown.typed hp hx t⟩, fun n hn ha => ?_⟩
  obtain rfl := Option.some.inj (hm.symm.trans hn)
  exact (hq u hu).model_of_holds ha hk

omit hq hx in
/-- The member of a collection is one of its entities. -/
theorem reads_member {x : Collection Ref} {P : Entity Ref → Prop}
    (hall : ∀ e ∈ x.entities, (∃ m k row, c.Typed reg D s e m k row) ∧ P e) (params : Scope.Params)
    (p : String) : Reads I (Scope.member (entitiesOf c reg book).graph params p x) s
      (fun u e => (∃ m k row, c.Typed reg D u e m k row) ∧ P e) True := by
  refine (Reads.of_keeps (((hI.seen s).keepsGraph hp hD reg book).member params p x)).imp
    (fun u e _ hsu he => ?_) id
  obtain ⟨⟨m, k, row, htyped⟩, hP⟩ := hall e he
  exact ⟨⟨m, k, row, htyped.mono hsu⟩, hP⟩

omit hI hq hp hD hx in
/-- A record that a relationship leads to has the model of the target. -/
theorem belongs_of_relationship {t t' : ResourceType} {m n : Model}
    (hpresents : c.Presents reg book t m) {rel : Relationship} (hrel : rel ∈ t.relationships)
    (ht : reg.resolve rel.target = .ok t') {l : Link} (hl : m.link? rel.name = some l)
    (hn : c.model? l.target = some n) {r : Ref} (hname : r.model = n.name) : c.Belongs t' r := by
  intro n' hn' _
  obtain ⟨l', hl', -, -, htarget⟩ := hpresents.relationship rel hrel
  obtain rfl := Option.some.inj (hl.symm.trans hl')
  rw [htarget t' ht, hn] at hn'
  exact Option.some.inj hn' ▸ hname

/-- The entity that a formed scope means is that of a stored record. -/
theorem reads_scopeEntity {sc : Scope} (hsc : sc.Formed reg) (params : Scope.Params) :
    Reads I (sc.entity (entitiesOf c reg book).graph params) s
      (fun u e => (∃ m k row, c.Typed reg D u e m k row) ∧ c.Belongs sc.memberType e.record)
      True := by
  have hrequired : ∀ {t : ResourceType} {s : Session} {o : Option (Entity Ref)},
      (∀ e, o = some e → (∃ m k row, c.Typed reg D s e m k row) ∧ c.Belongs t e.record) →
      Reads I (Scope.required o) s (fun u e => (∃ m k row, c.Typed reg D u e m k row) ∧
        c.Belongs t e.record) True := by
    intro t s o ho
    cases o with
    | none => exact reads_throw fun _ => trivial
    | some e => exact reads_pure fun _ => ho e rfl
  induction sc generalizing s with
  | type t p =>
    unfold Scope.entity
    rw [monadOfExcept_eq]
    exact (reads_ofExcept (P := fun _ _ => True) (fun _ _ => trivial) fun _ _ => trivial).bind
      fun id u _ _ _ => (reads_entityOf hI hq hp hD hx t id).bind fun o v _ _ ho => hrequired ho
  | relationship t p _ parent rel ih =>
    obtain ⟨hformed, hreadable, hmany, ht⟩ := hsc
    have hrel := (List.mem_filter.1 hreadable).1
    refine (ih hformed).bind fun owner u _ _ ⟨htyped, hbelongs⟩ => ?_
    obtain ⟨m, k, row, hpresents, hknown⟩ := hx.known_of_belongs hp hformed.memberType_mem
      (Or.inl (List.ne_nil_of_mem hrel)) htyped hbelongs
    refine ((reads_relatedMany hI hq hp hD hx hknown hpresents hrel hmany).imp
      (fun _ _ _ _ h => h) fun _ => trivial).bind fun x v _ _ ⟨_, _, l, n, hl, hn, hall⟩ => ?_
    refine reads_member hI hp hD (fun e he => ?_) params p
    obtain ⟨row', -, j, -, htyped⟩ := exists_of_forall₂_left hall he
    exact ⟨⟨n, j, row', htyped⟩, belongs_of_relationship hpresents hrel ht hl hn htyped.name⟩
  | finder t p parent f ih =>
    obtain ⟨hformed, hf, ht⟩ := hsc
    refine (ih hformed).bind fun owner u _ _ ⟨htyped, hbelongs⟩ => ?_
    obtain ⟨m, k, row, hpresents, hknown⟩ := hx.known_of_belongs hp hformed.memberType_mem
      (Or.inr (List.ne_nil_of_mem hf)) htyped hbelongs
    refine ((reads_found hI hq hp hD hx hknown hpresents hf).imp
      (fun _ _ _ _ h => h) fun _ => trivial).bind fun x v _ _ ⟨_, _, t', n, ht', hn, hall⟩ => ?_
    obtain rfl := Except.ok.inj (ht.symm.trans ht')
    refine reads_member hI hp hD (fun e he => ?_) params p
    obtain ⟨row', -, j, -, htyped⟩ := exists_of_forall₂_left hall he
    exact ⟨⟨n, j, row', htyped⟩, fun n' hn' _ => Option.some.inj (hn.symm.trans hn') ▸ htyped.name⟩
  | singular t p parent rel ih =>
    obtain ⟨hformed, hreadable, hone, ht⟩ := hsc
    have hrel := (List.mem_filter.1 hreadable).1
    refine (ih hformed).bind fun owner u _ _ ⟨htyped, hbelongs⟩ => ?_
    obtain ⟨m, k, row, hpresents, hknown⟩ := hx.known_of_belongs hp hformed.memberType_mem
      (Or.inl (List.ne_nil_of_mem hrel)) htyped hbelongs
    refine ((reads_relatedOne hI hq hp hD hx hknown hpresents hrel hone).imp
      (fun _ _ _ _ h => h) fun _ => trivial).bind fun o v _ _ ⟨l, n, hl, hn, hall⟩ => ?_
    refine hrequired fun e he => ?_
    generalize (c.rowsAt D m k row rel.name).head? = first at hall
    rw [he] at hall
    obtain @⟨_, _, j, -, htyped⟩ := hall
    exact ⟨⟨n, j, _, htyped⟩, belongs_of_relationship hpresents hrel ht hl hn htyped.name⟩

end Act

end Hypermedia
