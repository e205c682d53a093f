import Hypermedia.Proofs.Graph.Links
import Hypermedia.Proofs.Route.Formed
import Hypermedia.Proofs.Route.Spelling

/-!
# Resolving scopes

The parameters of the pattern of a route are the id parameters of the chain of its scope, from
the outermost to the innermost (`Spot.Aligned`). So where ids are given for the parameters of
the pattern, and everything is read without a fault, a scope is resolved to what its chain leads
to from the first record on (`Scope.Means`, `Scope.MeansAll`), or it is not found. The latter
happens exactly where some id on the chain matches nothing or a relationship to one leads to
nothing (`Scope.Misses`, `resolves_of_mem_routes`).
-/

namespace Hypermedia

/-! ## What a chain leads to -/

variable {R : Type}

/-- Everything is read without a fault and has the form that the types declare. -/
structure ResourceGraph.IsReadable (g : ResourceGraph (Except Fault) R) : Prop where
  query : ∀ t ∈ g.registry.types, ∃ rs, g.storage.query t = .ok rs
  get : ∀ t ∈ g.registry.types, ∀ id, ∃ o, g.storage.get t id = .ok o
  identity : ∀ r, ∃ id, g.storage.identity r = .ok id
  many : ∀ t ∈ g.registry.types, ∀ rel ∈ t.relationships, rel.isMany = true → ∀ r, ∃ rs,
    g.storage.related r rel = .ok (.many rs)
  one : ∀ t ∈ g.registry.types, ∀ rel ∈ t.relationships, rel.isMany = false → ∀ r,
    g.storage.related r rel = .ok .nothing ∨ ∃ x, g.storage.related r rel = .ok (.one x)
  find : ∀ t ∈ g.registry.types, ∀ f ∈ t.finders, ∀ r, ∃ rs, f.rule.find g.storage r = .ok rs

namespace Scope

variable (g : ResourceGraph (Except Fault) R) (params : Params)

/-- The entity is the first of some whose id reads like the one that is bound to a
parameter. -/
def Picks (p : String) (es : List (Entity R)) (e : Entity R) : Prop :=
  ∃ id, idOf params p = .ok id ∧ ∃ before after, es = before ++ e :: after ∧
    e.idText g = .ok id.display ∧ ∀ x ∈ before, x.idText g ≠ .ok id.display

/-- None of the entities has an id that reads like the one that is bound to a parameter. -/
def PicksNone (p : String) (es : List (Entity R)) : Prop :=
  ∃ id, idOf params p = .ok id ∧ ∀ x ∈ es, x.idText g ≠ .ok id.display

/-- What the chain of a scope leads to, from the record of the first id on. -/
def Means : Scope → Entity R → Prop
  | .type t p, e => ∃ id, idOf params p = .ok id ∧
    ∃ r, g.storage.get t id = .ok (some r) ∧ e = g.entity r t
  | .relationship t p _ parent rel, e => ∃ owner, Means parent owner ∧
    ∃ rs, g.storage.related owner.record rel = .ok (.many rs) ∧
      Picks g params p (rs.map (g.entity · t)) e
  | .finder t p parent f, e => ∃ owner, Means parent owner ∧
    ∃ rs, f.rule.find g.storage owner.record = .ok rs ∧
      Picks g params p (rs.map (g.entity · t)) e
  | .singular t _ parent rel, e => ∃ owner, Means parent owner ∧
    ∃ r, g.storage.related owner.record rel = .ok (.one r) ∧ e = g.entity r t

/-- Some id on the chain of a scope matches nothing, or a relationship to one leads to
nothing. -/
def Misses : Scope → Prop
  | .type t p => ∃ id, idOf params p = .ok id ∧ g.storage.get t id = .ok none
  | .relationship t p _ parent rel => Misses parent ∨ ∃ owner, Means g params parent owner ∧
    ∃ rs, g.storage.related owner.record rel = .ok (.many rs) ∧
      PicksNone g params p (rs.map (g.entity · t))
  | .finder t p parent f => Misses parent ∨ ∃ owner, Means g params parent owner ∧
    ∃ rs, f.rule.find g.storage owner.record = .ok rs ∧
      PicksNone g params p (rs.map (g.entity · t))
  | .singular _ _ parent rel => Misses parent ∨ ∃ owner, Means g params parent owner ∧
    g.storage.related owner.record rel = .ok .nothing

/-- The collection that the chain of a scope leads to. -/
def MeansAll : Scope → Collection R → Prop
  | .type t _, c => ∃ rs, g.storage.query t = .ok rs ∧
    c = { base := .type t, name := t.pluralName, entities := rs.map (g.entity · t), type := t }
  | .relationship t _ _ parent rel, c => ∃ owner, Means g params parent owner ∧
    ∃ rs, g.storage.related owner.record rel = .ok (.many rs) ∧
      c = { base := .owner owner, name := rel.name, entities := rs.map (g.entity · t), type := t
            relationship := some rel }
  | .finder t _ parent f, c => ∃ owner, Means g params parent owner ∧
    ∃ rs, f.rule.find g.storage owner.record = .ok rs ∧
      c = { base := .owner owner, name := f.name, entities := rs.map (g.entity · t), type := t }
  | .singular _ _ _ _, _ => False

end Scope

/-! ## Computations that find something -/

/-- The computation gives exactly what is like `P`, and otherwise what is missing is not found,
which happens exactly if `Q`. -/
def Finds {α : Type} (x : Except Fault α) (P : α → Prop) (Q : Prop) : Prop :=
  (∀ a, x = .ok a ↔ P a) ∧ ∀ f, x = .error f ↔ f = .notFound ∧ Q

namespace Finds

variable {α β : Type} {x : Except Fault α} {P : α → Prop} {Q : Prop}

theorem of_ok {a : α} (h : x = .ok a) (hP : ∀ b, P b ↔ b = a) (hQ : ¬Q) : Finds x P Q := by
  subst h
  exact ⟨fun b => by rw [hP, Except.ok.injEq, eq_comm], fun f => by simp [hQ]⟩

theorem of_notFound (h : x = .error .notFound) (hP : ∀ a, ¬P a) (hQ : Q) : Finds x P Q := by
  subst h
  exact ⟨fun a => by simp [hP], fun f => by simp [hQ, eq_comm]⟩

theorem imp {P' : α → Prop} {Q' : Prop} (h : Finds x P Q) (hP : ∀ a, P a ↔ P' a) (hQ : Q ↔ Q') :
    Finds x P' Q' :=
  ⟨fun a => (h.1 a).trans (hP a), fun f => (h.2 f).trans (and_congr_right fun _ => hQ)⟩

theorem bind {k : α → Except Fault β} {P' : α → β → Prop} {Q' : α → Prop} (hx : Finds x P Q)
    (hk : ∀ a, P a → Finds (k a) (P' a) (Q' a)) :
    Finds (x >>= k) (fun b => ∃ a, P a ∧ P' a b) (Q ∨ ∃ a, P a ∧ Q' a) := by
  cases x with
  | error f =>
    obtain ⟨rfl, hQ⟩ := (hx.2 f).1 rfl
    have hno : ∀ a, ¬P a := fun a ha => nomatch (hx.1 a).2 ha
    exact of_notFound rfl (by simp [hno]) (.inl hQ)
  | ok a =>
    have ha : ∀ b, P b ↔ b = a := fun b => (hx.1 b).symm.trans (by simp [eq_comm])
    have hQ : ¬Q := fun h => nomatch (hx.2 .notFound).2 ⟨rfl, h⟩
    exact (hk a ((ha a).2 rfl)).imp (by simp [ha]) (by simp [ha, hQ])

end Finds

/-! ## Resolving -/

namespace Scope

variable {g : ResourceGraph (Except Fault) R} {params : Params} (hg : g.IsReadable)

include hg

omit hg in
/-- There is only one first entity of an id. -/
theorem Picks.eq {p : String} {es : List (Entity R)} {e e' : Entity R} (h : Picks g params p es e)
    (h' : Picks g params p es e') : e' = e := by
  obtain ⟨id, hid, before, after, rfl, he, hbefore⟩ := h
  obtain ⟨id', hid', before', after', hes, he', hbefore'⟩ := h'
  obtain rfl := Except.ok.inj (hid.symm.trans hid')
  rcases List.append_eq_append_iff.1 hes with ⟨l, rfl, hl⟩ | ⟨l, rfl, hl⟩
  · cases l with
    | nil => exact (List.cons.inj hl).1.symm
    | cons x l =>
      obtain rfl := (List.cons.inj hl).1
      exact absurd he (hbefore' e (by simp))
  · cases l with
    | nil => exact (List.cons.inj hl).1
    | cons x l =>
      obtain rfl := (List.cons.inj hl).1
      exact absurd he' (hbefore e' (by simp))

/-- The search for an id ends at the first entity of that id. -/
theorem find_cases (id : String) (es : List (Entity R)) :
    (∃ before e after, Collection.find g id es = .ok (some e) ∧ es = before ++ e :: after ∧
      e.idText g = .ok id ∧ ∀ x ∈ before, x.idText g ≠ .ok id) ∨
    Collection.find g id es = .ok none ∧ ∀ x ∈ es, x.idText g ≠ .ok id := by
  induction es with
  | nil => exact .inr ⟨rfl, by simp⟩
  | cons e es ih =>
    obtain ⟨v, hv⟩ := hg.identity e.record
    have htext := idText_eq hv
    by_cases hsame : v.display = id
    · refine .inl ⟨[], e, es, ?_, rfl, hsame ▸ htext, by simp⟩
      simp [Collection.find, htext, hsame, bind, Except.bind, pure, Except.pure]
    · have hne : e.idText g ≠ .ok id := by simp [htext, hsame]
      have hstep : Collection.find g id (e :: es) = Collection.find g id es := by
        simp [Collection.find, htext, hsame, bind, Except.bind]
      rw [hstep]
      rcases ih with ⟨before, x, after, hx, rfl, hxid, hbefore⟩ | ⟨hnone, hall⟩
      · exact .inl ⟨e :: before, x, after, hx, rfl, hxid, by simpa [hne] using hbefore⟩
      · exact .inr ⟨hnone, by simpa [hne] using hall⟩

theorem finds_member {p : String} (hp : ∃ id, idOf params p = .ok id) (c : Collection R) :
    Finds (member g params p c) (Picks g params p c.entities)
      (PicksNone g params p c.entities) := by
  obtain ⟨id, hid⟩ := hp
  have hmember : member g params p c = Collection.find g id.display c.entities >>= required := by
    simp [member, hid, bind, Except.bind, Collection.get]
  rw [hmember]
  rcases find_cases hg id.display c.entities with
    ⟨before, e, after, hfind, hes, he, hbefore⟩ | ⟨hfind, hall⟩
  · have hpicks : Picks g params p c.entities e := ⟨id, hid, before, after, hes, he, hbefore⟩
    refine .of_ok (a := e) (by rw [hfind]; rfl) (fun e' => ⟨hpicks.eq, fun h => h ▸ hpicks⟩) ?_
    rintro ⟨id', hid', hall⟩
    obtain rfl := Except.ok.inj (hid.symm.trans hid')
    exact hall e (hes ▸ by simp) he
  · refine .of_notFound (by rw [hfind]; rfl) ?_ ⟨id, hid, hall⟩
    rintro e ⟨id', hid', before, after, hes, he, -⟩
    obtain rfl := Except.ok.inj (hid.symm.trans hid')
    exact hall e (hes ▸ by simp) he

/-- A readable relationship to many of a registered type leads to a collection. -/
theorem finds_relatedMany {t t' : ResourceType} (ht : t ∈ g.registry.types) {rel : Relationship}
    (hrel : rel ∈ t.readableRelationships) (hmany : rel.isMany = true)
    (htarget : g.registry.resolve rel.target = .ok t') (owner : Entity R) :
    Finds (g.relatedMany owner rel) (fun c => ∃ rs,
      g.storage.related owner.record rel = .ok (.many rs) ∧
        c = { base := .owner owner, name := rel.name, entities := rs.map (g.entity · t')
              type := t', relationship := some rel }) False := by
  obtain ⟨rs, hrs⟩ := hg.many t ht rel (List.mem_filter.1 hrel).1 hmany owner.record
  refine .of_ok (a := { base := .owner owner, name := rel.name, entities := rs.map (g.entity · t')
                        type := t', relationship := some rel }) ?_ (fun c => ?_) not_false
  · simp [ResourceGraph.relatedMany, htarget, hrs, Related.asMany, bind, Except.bind, pure,
      Except.pure]
  · simp [hrs]

theorem finds_found {t t' : ResourceType} (ht : t ∈ g.registry.types) {f : Finder}
    (hf : f ∈ t.finders) (htarget : g.registry.resolve f.target = .ok t') (owner : Entity R) :
    Finds (g.found owner f) (fun c => ∃ rs, f.rule.find g.storage owner.record = .ok rs ∧
      c = { base := .owner owner, name := f.name, entities := rs.map (g.entity · t')
            type := t' }) False := by
  obtain ⟨rs, hrs⟩ := hg.find t ht f hf owner.record
  refine .of_ok (a := { base := .owner owner, name := f.name, entities := rs.map (g.entity · t')
                        type := t' }) ?_ (fun c => ?_) not_false
  · simp [ResourceGraph.found, htarget, hrs, bind, Except.bind, pure, Except.pure]
  · simp [hrs]

/-- A readable relationship to one of a registered type leads to an entity or to nothing. -/
theorem finds_relatedOne {t t' : ResourceType} (ht : t ∈ g.registry.types) {rel : Relationship}
    (hrel : rel ∈ t.readableRelationships) (hone : rel.isMany = false)
    (htarget : g.registry.resolve rel.target = .ok t') (owner : Entity R) :
    Finds (g.relatedOne owner rel >>= required) (fun e => ∃ r,
      g.storage.related owner.record rel = .ok (.one r) ∧ e = g.entity r t')
      (g.storage.related owner.record rel = .ok .nothing) := by
  rcases hg.one t ht rel (List.mem_filter.1 hrel).1 hone owner.record with hnone | ⟨r, hr⟩
  · refine .of_notFound ?_ (by simp [hnone]) hnone
    simp [ResourceGraph.relatedOne, htarget, hnone, Related.asOne, bind, Except.bind, pure,
      Except.pure, required]
    rfl
  · refine .of_ok (a := g.entity r t') ?_ (by simp [hr]) (by simp [hr])
    simp [ResourceGraph.relatedOne, htarget, hr, Related.asOne, bind, Except.bind, pure,
      Except.pure, required]

/-- A formed scope is resolved to the entity that its chain leads to, where every scope of the
chain has an id. -/
theorem finds_entity {sc : Scope} (hsc : sc.Formed g.registry)
    (hids : ∀ s ∈ sc.chain, ∃ id, idOf params s.idParam = .ok id) :
    Finds (sc.entity g params) (Means g params sc) (Misses g params sc) := by
  induction sc with
  | type t p =>
    obtain ⟨id, hid⟩ : ∃ id, idOf params p = .ok id := hids _ List.mem_cons_self
    obtain ⟨o, ho⟩ := hg.get t hsc id
    cases o with
    | none =>
      refine .of_notFound ?_ (by simp [Means, hid, ho]) (by simp [Misses, hid, ho])
      simp [Scope.entity, hid, ResourceGraph.lookup, ho, bind, Except.bind, pure, Except.pure,
        required]
      rfl
    | some r =>
      refine .of_ok (a := g.entity r t) ?_ (by simp [Means, hid, ho]) (by simp [Misses, hid, ho])
      simp [Scope.entity, hid, ResourceGraph.lookup, ho, bind, Except.bind, pure, Except.pure,
        required]
  | relationship t p _ parent rel ih =>
    obtain ⟨hparent, hrel, hmany, ht⟩ := hsc
    have hown : ∃ id, idOf params p = .ok id := hids _ List.mem_cons_self
    refine ((ih hparent fun s hs => hids s (List.mem_cons_of_mem _ hs)).bind fun owner _ =>
      (finds_relatedMany hg hparent.memberType_mem hrel hmany ht owner).bind fun c _ =>
        finds_member hg hown c).imp (fun e => ?_) ?_
    · simp [Means]
    · simp [Misses]
  | finder t p parent f ih =>
    obtain ⟨hparent, hf, ht⟩ := hsc
    have hown : ∃ id, idOf params p = .ok id := hids _ List.mem_cons_self
    refine ((ih hparent fun s hs => hids s (List.mem_cons_of_mem _ hs)).bind fun owner _ =>
      (finds_found hg hparent.memberType_mem hf ht owner).bind fun c _ =>
        finds_member hg hown c).imp (fun e => ?_) ?_
    · simp [Means]
    · simp [Misses]
  | singular t p parent rel ih =>
    obtain ⟨hparent, hrel, hone, ht⟩ := hsc
    exact (ih hparent fun s hs => hids s (List.mem_cons_of_mem _ hs)).bind fun owner _ =>
      finds_relatedOne hg hparent.memberType_mem hrel hone ht owner

/-- A formed scope, other than one of a relationship to one, is resolved to the collection that
its chain leads to, where every scope above has an id. -/
theorem finds_collection {sc : Scope} (hsc : sc.Formed g.registry)
    (hmany : ∀ t p parent rel, sc ≠ .singular t p parent rel)
    (hids : ∀ s ∈ sc.chain.tail, ∃ id, idOf params s.idParam = .ok id) :
    Finds (sc.collection g params) (MeansAll g params sc)
      (∃ parent, sc.parent? = some parent ∧ Misses g params parent) := by
  cases sc with
  | type t p =>
    obtain ⟨rs, hrs⟩ := hg.query t hsc
    refine .of_ok (a := { base := .type t, name := t.pluralName, entities := rs.map (g.entity · t)
                          type := t }) ?_ (fun c => ?_) (by simp [parent?])
    · simp [Scope.collection, ResourceGraph.collection, hrs, bind, Except.bind, pure, Except.pure]
    · simp [MeansAll, hrs]
  | relationship t p _ parent rel =>
    obtain ⟨hparent, hrel, hmany, ht⟩ := hsc
    refine ((finds_entity hg hparent hids).bind fun owner _ =>
      finds_relatedMany hg hparent.memberType_mem hrel hmany ht owner).imp (fun c => Iff.rfl) ?_
    simp [parent?]
  | finder t p parent f =>
    obtain ⟨hparent, hf, ht⟩ := hsc
    refine ((finds_entity hg hparent hids).bind fun owner _ =>
      finds_found hg hparent.memberType_mem hf ht owner).imp (fun c => Iff.rfl) ?_
    simp [parent?]
  | singular t p parent rel => exact absurd rfl (hmany t p parent rel)

end Scope

/-! ## The parameters of patterns -/

namespace Scope

/-- The id parameters of the scopes above, from the first to the last. -/
def outerParams (s : Scope) : List String := (s.chain.tail.map idParam).reverse

/-- The id parameters of a chain, from the first to the last. -/
def allParams (s : Scope) : List String := s.outerParams ++ [s.idParam]

/-- The ids that a route of a kind needs for its scope. -/
def neededParams (s : Scope) : RouteKind → List String
  | .entity => s.allParams
  | _ => s.outerParams

theorem chain_eq_cons (s : Scope) : s.chain = s :: s.chain.tail := by
  cases s <;> rfl

theorem allParams_eq (s : Scope) : s.allParams = (s.chain.map idParam).reverse := by
  rw [s.chain_eq_cons]
  simp [allParams, outerParams]

end Scope

@[simp] theorem Pattern.params_append (p q : Pattern) :
    Pattern.params (p ++ q) = p.params ++ q.params :=
  List.filterMap_append

namespace Tree

variable {r : Registry}

theorem outerParams_childScope (s : Scope) (t : ResourceType) (p : String) (b : Branch) :
    (childScope s t p b).outerParams = s.allParams := by
  rw [s.allParams_eq]
  cases b <;> rfl

/-- The parameters at a spot, and those of its pattern, are those of the scopes above, and its
scope leads to a collection. -/
structure Spot.Aligned (p : Spot) : Prop where
  params : p.params = p.scope.outerParams
  pattern : p.pattern.params = p.scope.outerParams
  many : ∀ t q parent rel, p.scope ≠ .singular t q parent rel

namespace Spot.Aligned

theorem ofType (t : ResourceType) : (Spot.ofType t).Aligned := ⟨rfl, rfl, nofun⟩

variable {p : Spot} (h : p.Aligned)

include h

theorem entityPattern : p.entityPattern.params = p.scope.allParams := by
  rw [Spot.entityPattern, Pattern.params_append, h.pattern]
  rfl

theorem branchPattern (name : String) : (p.branchPattern name).params = p.scope.allParams := by
  rw [Spot.branchPattern, Pattern.params_append, h.entityPattern]
  exact List.append_nil _

theorem advance (x : Step) : (p.advance x).Aligned := by
  constructor
  · rw [Spot.advance, outerParams_childScope, Scope.allParams, ← h.params]
  · rw [Spot.advance, outerParams_childScope, h.branchPattern]
  · intro t q parent rel
    cases hb : x.branch <;> simp [Spot.advance, hb, childScope]

end Spot.Aligned

theorem Way.aligned_spot (w : Way) : w.spot.Aligned := by
  have hfold : ∀ (xs : List Step) {p : Spot}, p.Aligned → (xs.foldl Spot.advance p).Aligned := by
    intro xs
    induction xs with
    | nil => exact fun h => h
    | cons x xs ih => exact fun h => ih (h.advance x)
  exact hfold w.steps (.ofType w.start)

/-- A route of the registry, apart from the root, has a formed scope. Its pattern has the
parameters that the scope needs, and only the scope of a relationship to one leads to no
collection; it needs no id beside those above it. -/
theorem scope_of_mem_routes {maxDepth : Int} {rootPath : String} {table : RouteTable}
    (h : routes r maxDepth rootPath = .ok table) {x : Route} (hx : x ∈ table.routes)
    (hkind : x.kind ≠ .root) : ∃ sc, x.scope = some sc ∧ sc.Formed r ∧
      x.pattern.params = sc.neededParams x.kind ∧
      (x.kind = .collection → ∀ t p parent rel, sc ≠ .singular t p parent rel) ∧
      (x.kind ≠ .collection → ∀ s ∈ sc.chain, s.idParam ∈ x.pattern.params) := by
  have hformed := formed_of_mem_routes h hx
  rcases (mem_routes h).1 hx with rfl | ⟨w, hw, hx⟩
  · exact absurd rfl hkind
  have haligned := w.aligned_spot
  have hchain : ∀ s ∈ w.spot.scope.chain, s.idParam ∈ w.spot.scope.allParams := by
    intro s hs
    rw [Scope.allParams_eq, List.mem_reverse]
    exact List.mem_map_of_mem hs
  rcases List.mem_append.1 hx with hx | hx
  · simp only [ownRoutes, List.mem_cons, List.not_mem_nil, or_false] at hx
    rcases hx with rfl | rfl
    · exact ⟨_, rfl, (hformed _ rfl).1, haligned.pattern, fun _ => haligned.many,
        fun hno => absurd rfl hno⟩
    · refine ⟨_, rfl, (hformed _ rfl).1, haligned.entityPattern, fun hc => (by cases hc),
        fun _ s hs => ?_⟩
      exact haligned.entityPattern ▸ hchain s hs
  · obtain ⟨rel, -, rfl⟩ := List.mem_map.1 hx
    have hparams := haligned.branchPattern rel.name
    refine ⟨_, rfl, (hformed _ rfl).1, ?_, fun hc => (by cases hc), fun _ s hs => ?_⟩
    · exact hparams.trans w.spot.scope.allParams_eq
    · -- The scope of a relationship to one has the parameter of its owner.
      change s.idParam ∈ (w.spot.branchPattern rel.name).params
      rw [hparams]
      rcases List.mem_cons.1 hs with rfl | hs
      · exact List.mem_append_right _ List.mem_cons_self
      · exact hchain s hs

/-! ## Resolving the routes of a registry -/

/-- Every route of a registry, apart from the root, has the parameters that its scope needs, also
as its pattern is spelled if no name has brackets in it. Where all of them have ids, a
collection or an entity is found exactly if the chain of the scope leads to it; the only fault is
that it is not found, exactly if some id matches nothing or a relationship to one leads to
nothing. -/
theorem resolves_of_mem_routes {maxDepth : Int} {rootPath : String} {table : RouteTable}
    (h : routes r maxDepth rootPath = .ok table) {x : Route} (hx : x ∈ table.routes)
    (hkind : x.kind ≠ .root) : ∃ sc, x.scope = some sc ∧
      x.pattern.params = sc.neededParams x.kind ∧
      ((∀ t ∈ r.types, t.Unbracketed) →
        namedParams none x.spelling.toList = sc.neededParams x.kind) ∧
      ∀ {R : Type} (g : ResourceGraph (Except Fault) R), g.registry = r → g.IsReadable →
        ∀ params : Scope.Params,
          (∀ p ∈ x.pattern.params, ∃ id, Scope.idOf params p = .ok id) →
          (x.kind = .collection → Finds (sc.collection g params) (Scope.MeansAll g params sc)
            (∃ parent, sc.parent? = some parent ∧ Scope.Misses g params parent)) ∧
          (x.kind ≠ .collection →
            Finds (sc.entity g params) (Scope.Means g params sc) (Scope.Misses g params sc)) := by
  obtain ⟨sc, hscope, hformed, hparams, hmany, hchain⟩ := scope_of_mem_routes h hx hkind
  refine ⟨sc, hscope, hparams, fun hr => ?_, ?_⟩
  · rw [← hparams]
    exact namedParams_spelling (unbracketed_of_mem_routes hr h hx hkind)
  · rintro R g rfl hg params hids
    refine ⟨fun hc => ?_, fun hc => ?_⟩
    · refine Scope.finds_collection hg hformed (hmany hc) fun s hs => hids _ ?_
      rw [hparams, hc]
      change _ ∈ sc.outerParams
      rw [Scope.outerParams, List.mem_reverse]
      exact List.mem_map_of_mem hs
    · exact Scope.finds_entity hg hformed fun s hs => hids _ (hchain hc s hs)

end Tree

/-! ## Two notes -/

theorem twoNotes_isReadable : twoNotes.IsReadable where
  query _ _ := ⟨_, rfl⟩
  get _ _ _ := ⟨_, rfl⟩
  identity _ := ⟨_, rfl⟩
  many _ _ rel _ hmany r := ⟨_, by simp only [twoNotes, hmany]; rfl⟩
  one _ _ rel _ hone r := by cases r <;> simp [twoNotes, hone]
  find t ht f hf r := by
    obtain rfl : t = noteType := by simpa [twoNotes] using ht
    obtain rfl := List.mem_singleton.1 hf
    exact ⟨_, rfl⟩

/-- The way from the notes to those that follow one. -/
def nextNotes : Tree.Way where
  place := 0
  start := noteType
  steps := (Tree.branches noteType).zipIdx.take 1 |>.map fun b =>
    { place := b.2, branch := b.1, target := noteType }

namespace Tree

/-- The relationship to the notes that follow one. -/
def nextRelationship : Relationship := { name := "next", target := .named "Note" }

theorem scope_nextNotes : nextNotes.spot.scope =
    .relationship noteType "note_id1" false (.type noteType "note_id") nextRelationship := by
  have hfirst : paramName noteType [] 0 = "note_id" := by decide
  have hsecond : paramName noteType ["note_id"] 1 = "note_id1" := by decide
  change Scope.relationship noteType (paramName noteType [paramName noteType [] 0] 1) false
    (.type noteType (paramName noteType [] 0)) nextRelationship = _
  rw [hfirst, hsecond]

/-- The second note is found where it follows the first one, and the first one is not found
there. -/
theorem resolves_of_mem_routes_twoNotes : ∃ table, routes twoNotes.registry 1 "/" = .ok table ∧
    ∃ x ∈ table.routes, x.spelling = "/notes/<rid:note_id>/next/<rid:note_id1>" ∧
      ∃ sc, x.scope = some sc ∧
        sc.entity twoNotes [("note_id", .text "0"), ("note_id1", .text "1")] =
          .ok ⟨noteType, true, []⟩ ∧
        sc.entity twoNotes [("note_id", .text "0"), ("note_id1", .text "0")] =
          .error .notFound := by
  obtain ⟨table, h⟩ : ∃ table, routes twoNotes.registry 1 "/" = .ok table := ⟨_, rfl⟩
  have hw : nextNotes.IsIn twoNotes.registry 1 :=
    { start := rfl, follows := ⟨rfl, rfl, rfl, trivial⟩
      edges_nodup := by decide, length_le := by decide }
  obtain ⟨x, hx, hkind, hpattern, hspot, -⟩ :=
    exists_entity_route twoNotes.registry nextNotes.spot
  have hmem : x ∈ table.routes := (mem_routes h).2 (.inr ⟨_, hw, hx⟩)
  obtain ⟨sc, hscope, -, -, hfinds⟩ := resolves_of_mem_routes h hmem (by simp [hkind])
  obtain rfl := Option.some.inj (hspot.symm.trans hscope)
  have hparams : x.pattern.params = ["note_id", "note_id1"] := by rw [hpattern]; decide +kernel
  refine ⟨table, h, x, hmem, by rw [Route.spelling, hpattern]; decide +kernel, _, hscope, ?_, ?_⟩
  · -- The notes that follow the first one are the second one alone.
    have hentity := (hfinds twoNotes rfl twoNotes_isReadable
      [("note_id", .text "0"), ("note_id1", .text "1")]
      (by simp [hparams, Scope.idOf])).2 (by simp [hkind])
    refine (hentity.1 _).2 ?_
    rw [scope_nextNotes]
    exact ⟨⟨noteType, false, []⟩, ⟨_, rfl, false, rfl, rfl⟩, [true], rfl,
      _, rfl, [], [], rfl, rfl, by simp⟩
  · have hentity := (hfinds twoNotes rfl twoNotes_isReadable
      [("note_id", .text "0"), ("note_id1", .text "0")]
      (by simp [hparams, Scope.idOf])).2 (by simp [hkind])
    refine (hentity.2 _).2 ⟨rfl, ?_⟩
    rw [scope_nextNotes]
    refine .inr ⟨⟨noteType, false, []⟩, ⟨_, rfl, false, rfl, rfl⟩, [true], rfl, _, rfl, ?_⟩
    intro e he
    obtain rfl := List.mem_singleton.1 he
    decide +kernel

end Tree

end Hypermedia
