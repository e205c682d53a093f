import Hypermedia.Proofs.Outcome
import Hypermedia.Proofs.Route.Formed
import Hypermedia.Proofs.Schema.Inheriting

/-!
# What clients may follow

The routes of a registry only follow relationships that clients may follow of the declared type
of an owner. The owner itself may be of a type below that one. Where every record that is found
under a type belongs there, and no subtype hides a relationship that it inherits, clients may
follow each relationship on the chain of a scope that is resolved of the owner's own type too
(`readable_of_mem_routes`). Where a subtype does hide one, it is still followed below the
supertype (`hidden_friends_served`).
-/

namespace Hypermedia

variable {R : Type}

/-! ## Records of their types -/

/-- The own type of a record, where it is found under a type, is that type or below it. -/
def ResourceGraph.Fits (g : ResourceGraph (Except Fault) R) (record : R) (t : ResourceType) :
    Prop :=
  g.registry.IsBelow (g.entity record t).type t

/-- Every record that is found under a type belongs there. -/
structure ResourceGraph.Conforms (g : ResourceGraph (Except Fault) R) : Prop where
  get : ∀ t ∈ g.registry.types, ∀ id x, g.storage.get t id = .ok (some x) → g.Fits x t
  many : ∀ t ∈ g.registry.types, ∀ rel ∈ t.relationships, ∀ t',
    g.registry.resolve rel.target = .ok t' → ∀ owner xs,
      g.storage.related owner rel = .ok (.many xs) → ∀ x ∈ xs, g.Fits x t'
  one : ∀ t ∈ g.registry.types, ∀ rel ∈ t.relationships, ∀ t',
    g.registry.resolve rel.target = .ok t' → ∀ owner x,
      g.storage.related owner rel = .ok (.one x) → g.Fits x t'
  find : ∀ t ∈ g.registry.types, ∀ f ∈ t.finders, ∀ t',
    g.registry.resolve f.target = .ok t' → ∀ owner xs,
      f.rule.find g.storage owner = .ok xs → ∀ x ∈ xs, g.Fits x t'

namespace Related

theorem asMany_eq_ok {x : Related R} {rs : List R} (h : x.asMany = .ok rs) : x = .many rs := by
  cases x <;> cases h
  rfl

theorem asOne_eq_some {x : Related R} {r : R} (h : x.asOne = .ok (some r)) : x = .one r := by
  cases x <;> cases h
  rfl

end Related

namespace Scope

/-- The scope above and the relationship that leads on from it, if one does. -/
def relationship? : Scope → Option (Scope × Relationship)
  | .relationship _ _ _ parent rel | .singular _ _ parent rel => some (parent, rel)
  | .type _ _ | .finder _ _ _ _ => none

theorem Formed.readable {reg : Registry} {s parent : Scope} {rel : Relationship} (h : s.Formed reg)
    (hs : s.relationship? = some (parent, rel)) :
    parent.Formed reg ∧ rel ∈ parent.memberType.readableRelationships := by
  cases s <;> cases hs <;> exact ⟨h.1, h.2.1⟩

theorem Formed.of_mem_chain {reg : Registry} {s : Scope} : ∀ {sc : Scope}, sc.Formed reg →
    s ∈ sc.chain → s.Formed reg
  | .type _ _, h, hs => List.mem_singleton.1 hs ▸ h
  | .relationship _ _ _ _ _, h, hs | .finder _ _ _ _, h, hs | .singular _ _ _ _, h, hs => by
    rcases List.mem_cons.1 hs with rfl | hs
    · exact h
    · exact h.1.of_mem_chain hs

variable {g : ResourceGraph (Except Fault) R} {params : Params}

/-- The scope is resolved, to an entity or to a collection. -/
def IsResolved (g : ResourceGraph (Except Fault) R) (params : Params) (sc : Scope) : Prop :=
  (∃ e, sc.entity g params = .ok e) ∨ ∃ c, sc.collection g params = .ok c

/-- Each relationship on the chain leads on from an entity whose own type has a relationship of
its name that clients may follow. -/
def FollowsReadable (g : ResourceGraph (Except Fault) R) (params : Params) (sc : Scope) : Prop :=
  ∀ s ∈ sc.chain, ∀ parent rel, s.relationship? = some (parent, rel) →
    ∃ owner, parent.entity g params = .ok owner ∧
      ∃ rel' ∈ owner.type.readableRelationships, rel'.name = rel.name

/-! ## Owners -/

theorem required_eq_ok {α : Type} {o : Option α} {a : α}
    (h : (required o : Except Fault α) = .ok a) : o = some a := by
  cases o with
  | none => cases h
  | some b => exact congrArg some (Except.ok.inj h)

theorem mem_of_find {id : String} {e : Entity R} : ∀ {es : List (Entity R)},
    Collection.find g id es = .ok (some e) → e ∈ es
  | [], h => nomatch Except.ok.inj h
  | x :: es, h => by
    obtain ⟨t, -, h⟩ := bind_eq_ok.1 h
    split at h
    · obtain rfl := Option.some.inj (Except.ok.inj h)
      exact List.mem_cons_self
    · exact List.mem_cons_of_mem _ (mem_of_find h)

theorem mem_of_member {p : String} {c : Collection R} {e : Entity R}
    (h : member g params p c = .ok e) : e ∈ c.entities := by
  obtain ⟨id, -, h⟩ := bind_eq_ok.1 h
  obtain ⟨o, ho, h⟩ := bind_eq_ok.1 h
  exact mem_of_find (ho.trans (congrArg _ (required_eq_ok h)))

/-- The entity of a formed scope is of the type that the scope leads to or of one below it. -/
theorem isBelow_of_entity (hg : g.Conforms) {sc : Scope} (hsc : sc.Formed g.registry)
    {e : Entity R} (h : sc.entity g params = .ok e) : g.registry.IsBelow e.type sc.memberType := by
  cases sc with
  | type t p =>
    obtain ⟨id, -, h⟩ := bind_eq_ok.1 h
    obtain ⟨o, ho, h⟩ := bind_eq_ok.1 h
    obtain ⟨x, hx, ho⟩ := bind_eq_ok.1 ho
    obtain ⟨r, rfl, rfl⟩ := Option.map_eq_some_iff.1
      ((pure_eq_ok.1 ho).trans (required_eq_ok h))
    exact hg.get t hsc id r hx
  | relationship t p b parent rel =>
    obtain ⟨hparent, hrel, -, ht⟩ := hsc
    obtain ⟨owner, -, h⟩ := bind_eq_ok.1 h
    obtain ⟨c, hc, h⟩ := bind_eq_ok.1 h
    obtain ⟨t', ht', hc⟩ := bind_eq_ok.1 hc
    obtain ⟨x, hx, hc⟩ := bind_eq_ok.1 hc
    obtain ⟨rs, hrs, hc⟩ := bind_eq_ok.1 hc
    rw [ofExcept_eq] at ht' hrs
    obtain rfl := Except.ok.inj (ht.symm.trans ht')
    obtain rfl := pure_eq_ok.1 hc
    obtain ⟨r, hr, rfl⟩ := List.mem_map.1 (mem_of_member h)
    exact hg.many _ hparent.memberType_mem rel (List.mem_filter.1 hrel).1 t ht _ rs
      (Related.asMany_eq_ok hrs ▸ hx) r hr
  | finder t p parent f =>
    obtain ⟨hparent, hf, ht⟩ := hsc
    obtain ⟨owner, -, h⟩ := bind_eq_ok.1 h
    obtain ⟨c, hc, h⟩ := bind_eq_ok.1 h
    obtain ⟨t', ht', hc⟩ := bind_eq_ok.1 hc
    obtain ⟨rs, hrs, hc⟩ := bind_eq_ok.1 hc
    rw [ofExcept_eq] at ht'
    obtain rfl := Except.ok.inj (ht.symm.trans ht')
    obtain rfl := pure_eq_ok.1 hc
    obtain ⟨r, hr, rfl⟩ := List.mem_map.1 (mem_of_member h)
    exact hg.find _ hparent.memberType_mem f hf t ht _ rs hrs r hr
  | singular t p parent rel =>
    obtain ⟨hparent, hrel, -, ht⟩ := hsc
    obtain ⟨owner, -, h⟩ := bind_eq_ok.1 h
    obtain ⟨o, ho, h⟩ := bind_eq_ok.1 h
    obtain ⟨t', ht', ho⟩ := bind_eq_ok.1 ho
    obtain ⟨x, hx, ho⟩ := bind_eq_ok.1 ho
    obtain ⟨r?, hr, ho⟩ := bind_eq_ok.1 ho
    rw [ofExcept_eq] at ht' hr
    obtain rfl := Except.ok.inj (ht.symm.trans ht')
    obtain ⟨r, rfl, rfl⟩ := Option.map_eq_some_iff.1
      ((pure_eq_ok.1 ho).trans (required_eq_ok h))
    exact hg.one _ hparent.memberType_mem rel (List.mem_filter.1 hrel).1 t ht _ r
      (Related.asOne_eq_some hr ▸ hx)

/-- A scope is only resolved by way of an owner. -/
theorem IsResolved.exists_owner {sc parent : Scope} (h : sc.IsResolved g params)
    (hp : sc.parent? = some parent) : ∃ owner, parent.entity g params = .ok owner := by
  cases sc <;> cases hp <;> rcases h with ⟨_, h⟩ | ⟨_, h⟩
  case singular.refl.inr => cases h
  all_goals exact (bind_eq_ok.1 h).imp fun _ => And.left

/-- The scopes on the chain of a scope that is resolved are resolved. -/
theorem IsResolved.of_mem_chain {s : Scope} : ∀ {sc : Scope}, sc.IsResolved g params →
    s ∈ sc.chain → s.IsResolved g params
  | .type _ _, h, hs => List.mem_singleton.1 hs ▸ h
  | .relationship _ _ _ _ _, h, hs | .finder _ _ _ _, h, hs | .singular _ _ _ _, h, hs => by
    rcases List.mem_cons.1 hs with rfl | hs
    · exact h
    · exact of_mem_chain (.inl (h.exists_owner rfl)) hs

theorem IsResolved.followsReadable {sc : Scope} (h : sc.IsResolved g params)
    (hr : g.registry.IsBuilt) (hshown : g.registry.HidesNothing) (hg : g.Conforms)
    (hsc : sc.Formed g.registry) : sc.FollowsReadable g params := by
  intro s hs parent rel hrel
  obtain ⟨hparent, hreadable⟩ := (hsc.of_mem_chain hs).readable hrel
  have habove : s.parent? = some parent := by
    cases s <;> cases hrel <;> rfl
  obtain ⟨owner, howner⟩ := (h.of_mem_chain hs).exists_owner habove
  exact ⟨owner, howner, hr.exists_readable hshown (isBelow_of_entity hg hparent howner) hreadable⟩

end Scope

/-! ## The routes of a registry -/

namespace Tree

/-- Each relationship on the chain of a route is one that clients may follow of the declared
type of the scope above. If no subtype hides what it inherits, and every record that is found
under a type belongs there, it is also one that clients may follow of the owner's own type. -/
theorem readable_of_mem_routes {r : Registry} (hr : r.IsBuilt) {maxDepth : Int} {rootPath : String}
    {table : RouteTable} (h : routes r maxDepth rootPath = .ok table) {x : Route}
    (hx : x ∈ table.routes) {sc : Scope} (hscope : x.scope = some sc) :
    (∀ s ∈ sc.chain, ∀ parent rel, s.relationship? = some (parent, rel) →
      rel ∈ parent.memberType.readableRelationships) ∧
    (r.HidesNothing → ∀ {R : Type} (g : ResourceGraph (Except Fault) R), g.registry = r →
      g.Conforms → ∀ params : Scope.Params, sc.IsResolved g params →
        sc.FollowsReadable g params) := by
  obtain ⟨hformed, -⟩ := formed_of_mem_routes h hx sc hscope
  refine ⟨fun s hs parent rel hrel => ((hformed.of_mem_chain hs).readable hrel).2, ?_⟩
  rintro hshown R g rfl hg params hresolved
  exact hresolved.followsReadable hr hshown hg hformed

/-! ## Persons and hermits -/

/-- The friends of a person. -/
def friendsRelationship : Relationship := { name := "friends", target := .named "Person" }

/-- Persons with their friends. -/
def personType : ResourceType where
  name := "Person"
  relationships := [friendsRelationship]
  plural := some "persons"
  model := some ⟨"Person", [0]⟩

/-- Persons whose friends may be seen or not. -/
def hermitType (reader : Visibility) : ResourceType where
  name := "Hermit"
  relationships := [{ friendsRelationship with reader }]
  supertype := some "Person"
  plural := some "hermits"
  model := some ⟨"Hermit", [1, 0]⟩

/-- Persons, and hermits below them. -/
def personRegistry (reader : Visibility) : Registry :=
  ((Registry.empty.register personType).1.register (hermitType reader)).1

/-- A hermit and another person, who are friends. -/
def twoPersons (reader : Visibility) : ResourceGraph (Except Fault) Bool where
  registry := personRegistry reader
  storage :=
    { classOf := fun r => some (if r then ⟨"Person", [0]⟩ else ⟨"Hermit", [1, 0]⟩)
      query := fun t => .ok (if t.name == "Hermit" then [false] else [false, true])
      get := fun t id => .ok ((if t.name == "Hermit" then [false] else [false, true]).find? fun r =>
        id == .text (if r then "1" else "0"))
      identity := fun r => .ok (.text (if r then "1" else "0"))
      value := fun _ _ => .ok .null
      related := fun r rel => .ok (if rel.isMany then .many [!r] else .nothing)
      source := fun _ _ => .ok [] }
  judge := fun _ _ => .ok .null

/-- The scope of the friends of a person. -/
def friendsScope : Scope :=
  .relationship personType "person_id1" false (.type personType "person_id") friendsRelationship

theorem personRegistry_eq (reader : Visibility) :
    personRegistry reader = ⟨[personType, hermitType reader]⟩ := by
  cases reader <;> rfl

theorem exists_friends_route (reader : Visibility) :
    ∃ table, routes (personRegistry reader) 1 "/" = .ok table ∧ ∃ x ∈ table.routes,
      x.spelling = "/persons/<rid:person_id>/friends" ∧ x.scope = some friendsScope := by
  obtain ⟨table, h⟩ : ∃ table, routes (personRegistry reader) 1 "/" = .ok table := by
    cases reader <;> exact ⟨_, rfl⟩
  let way : Way :=
    { place := 0, start := personType
      steps := [{ place := 0, branch := .relationship friendsRelationship, target := personType }] }
  have hway : way.IsIn (personRegistry reader) 1 := by
    rw [personRegistry_eq]
    exact { start := rfl, follows := ⟨rfl, rfl, rfl, trivial⟩
            edges_nodup := by decide, length_le := by decide }
  obtain ⟨x, hx, -, hpattern, hscope, -⟩ :=
    exists_collection_route (personRegistry reader) way.spot
  have hfirst : paramName personType [] 0 = "person_id" := by decide
  have hsecond : paramName personType ["person_id"] 1 = "person_id1" := by decide
  have hspot : way.spot.scope = friendsScope := by
    change Scope.relationship personType (paramName personType [paramName personType [] 0] 1) false
      (.type personType (paramName personType [] 0)) friendsRelationship = _
    rw [hfirst, hsecond]
    rfl
  refine ⟨table, h, x, (mem_routes h).2 (.inr ⟨_, hway, hx⟩), ?_, hscope.trans (congrArg _ hspot)⟩
  rw [Route.spelling, hpattern]
  decide

/-- The person of the id 0, a hermit, is friends with the other one. -/
theorem collection_friendsScope (reader : Visibility) :
    ∃ c, friendsScope.collection (twoPersons reader) [("person_id", .text "0")] = .ok c ∧
      c.entities.map Entity.record = [true] := by
  cases reader <;> exact ⟨_, rfl, rfl⟩

theorem twoPersons_conforms : (twoPersons .shown).Conforms := by
  have htypes : (twoPersons .shown).registry.types = [personType, hermitType .shown] := rfl
  have hhermit : (twoPersons .shown).Fits false personType :=
    .single ⟨by rw [htypes]; exact List.mem_cons_of_mem _ List.mem_cons_self, "Person", rfl, rfl⟩
  have hperson : ∀ x, (twoPersons .shown).Fits x personType
    | false => hhermit
    | true => .refl
  have htarget : ∀ t ∈ (twoPersons .shown).registry.types, ∀ rel ∈ t.relationships,
      (twoPersons .shown).registry.resolve rel.target = .ok personType := by
    intro t ht rel hrel
    rw [htypes] at ht
    simp only [List.mem_cons, List.not_mem_nil, or_false] at ht
    rcases ht with rfl | rfl <;> obtain rfl := List.mem_singleton.1 hrel <;> rfl
  refine { get := ?_, many := ?_, one := ?_, find := ?_ }
  · intro t ht id x hx
    rw [htypes] at ht
    simp only [List.mem_cons, List.not_mem_nil, or_false] at ht
    rcases ht with rfl | rfl
    · exact hperson x
    · -- Under the hermits there is only one record.
      have hmem : x ∈ [false] := List.mem_of_find?_eq_some (Except.ok.inj hx)
      obtain rfl := List.mem_singleton.1 hmem
      exact .refl
  · intro t ht rel hrel t' ht' owner xs _ x _
    obtain rfl := Except.ok.inj ((htarget t ht rel hrel).symm.trans ht')
    exact hperson x
  · intro t ht rel hrel t' ht' owner x _
    obtain rfl := Except.ok.inj ((htarget t ht rel hrel).symm.trans ht')
    exact hperson x
  · intro t ht f hf
    rw [htypes] at ht
    simp only [List.mem_cons, List.not_mem_nil, or_false] at ht
    rcases ht with rfl | rfl <;> cases hf

/-- The friends of a hermit who does not hide them are followed as its own type allows. -/
theorem readable_of_mem_routes_persons :
    ∃ table, routes (personRegistry .shown) 1 "/" = .ok table ∧ ∃ x ∈ table.routes,
      x.spelling = "/persons/<rid:person_id>/friends" ∧ ∃ sc, x.scope = some sc ∧
        sc.FollowsReadable (twoPersons .shown) [("person_id", .text "0")] := by
  obtain ⟨table, h, x, hx, hspelling, hscope⟩ := exists_friends_route .shown
  have hhides : (personRegistry .shown).HidesNothing := by
    intro t super hext rel hrel _
    have hall : ∀ t ∈ (personRegistry .shown).types, ∀ rel ∈ t.relationships,
        rel.isReadable = true := by decide +kernel
    exact hall t hext.1 rel hrel
  obtain ⟨c, hc, -⟩ := collection_friendsScope .shown
  refine ⟨table, h, x, hx, hspelling, _, hscope, ?_⟩
  exact (readable_of_mem_routes (.register (.register .empty _) _) h hx hscope).2 hhides
    (twoPersons .shown) rfl twoPersons_conforms _ (.inr ⟨c, hc⟩)

/-- The friends of a hermit who hides them are found below the persons all the same. -/
theorem hidden_friends_served :
    ∃ table, routes (personRegistry .hidden) 1 "/" = .ok table ∧ ∃ x ∈ table.routes,
      x.spelling = "/persons/<rid:person_id>/friends" ∧ ∃ sc, x.scope = some sc ∧
        (∃ c, sc.collection (twoPersons .hidden) [("person_id", .text "0")] = .ok c ∧
          c.entities.map Entity.record = [true]) ∧
        ¬sc.FollowsReadable (twoPersons .hidden) [("person_id", .text "0")] := by
  obtain ⟨table, h, x, hx, hspelling, hscope⟩ := exists_friends_route .hidden
  refine ⟨table, h, x, hx, hspelling, _, hscope, collection_friendsScope .hidden, fun hall => ?_⟩
  obtain ⟨owner, howner, rel, hrel, -⟩ := hall friendsScope List.mem_cons_self _ _ rfl
  obtain rfl : (⟨hermitType .hidden, false, []⟩ : Entity Bool) = owner := Except.ok.inj howner
  have hnone : (hermitType .hidden).readableRelationships = [] := rfl
  rw [hnone] at hrel
  cases hrel

end Tree

end Hypermedia
