import Hypermedia.Proofs.Schema.Inheriting
import Hypermedia.Route.Tree
import Mathlib.Data.List.Nodup
import Mathlib.Data.List.Perm.Basic

/-!
# Ways through a registry

A way starts at a type of a registry and takes branches to many, each from the type that
the way has reached (`Way`). The tree of routes (`Tree.routes`) is described by its ways:
there is a collection and an entity for each way without a repeated edge and with no more
steps than the depth allows, below the entity a route for each readable relationship to one
of the type that is reached, and besides these only the root (`routes_perm_ways`).

A step says at which place of the branches its branch stands, so two branches that are
spelled alike are two different steps.
-/

namespace Hypermedia.Tree

/-! ## Ways and spots -/

namespace Branch

/-- Does the branch lead to a collection? A relationship to one does not. -/
def isDeep : Branch → Bool
  | .relationship r => r.isMany
  | .finder _ => true

end Branch

/-- A step of a way: a branch with its place among those of its type, and the type that it
leads to. -/
structure Step where
  place : Nat
  branch : Branch
  target : ResourceType

/-- A way from all entities of a type, with the place of the type in the registry. -/
structure Way where
  place : Nat
  start : ResourceType
  steps : List Step

/-- From the type, each step takes a branch to many of the type that is reached. -/
def Follows (r : Registry) : ResourceType → List Step → Prop
  | _, [] => True
  | t, x :: xs =>
    (branches t)[x.place]? = some x.branch ∧ x.branch.isDeep = true ∧
      r.resolve x.branch.target = .ok x.target ∧ Follows r x.target xs

/-- The edges of steps from a type. -/
def edges : ResourceType → List Step → List Edge
  | _, [] => []
  | t, x :: xs => (t.name, x.branch.name) :: edges x.target xs

/-- What a way leads to: the scope and the pattern of a collection, and the parameters in
the pattern. -/
structure Spot where
  scope : Scope
  pattern : Pattern
  params : List String

namespace Spot

/-- All entities of a type. -/
def ofType (t : ResourceType) : Spot :=
  { scope := .type t (paramName t [] 0), pattern := [.text s!"/{t.pluralName}"], params := [] }

/-- The pattern of the members. -/
def entityPattern (p : Spot) : Pattern := p.pattern ++ [.id p.scope.idParam]

/-- The pattern of what a branch of the members leads to. -/
def branchPattern (p : Spot) (name : String) : Pattern := p.entityPattern ++ [.text s!"/{name}"]

/-- The spot after a further step. -/
def advance (p : Spot) (x : Step) : Spot :=
  let params := p.params ++ [p.scope.idParam]
  { scope := childScope p.scope x.target (paramName x.target params params.length) x.branch
    pattern := p.branchPattern x.branch.name, params }

end Spot

/-- The spot that a way leads to. -/
def Way.spot (w : Way) : Spot := w.steps.foldl Spot.advance (.ofType w.start)

/-- A way of the registry without a repeated edge, of no more steps than the depth allows. -/
structure Way.IsIn (r : Registry) (maxDepth : Int) (w : Way) : Prop where
  start : r.types[w.place]? = some w.start
  follows : Follows r w.start w.steps
  edges_nodup : (edges w.start w.steps).Nodup
  length_le : (w.steps.length : Int) ≤ max 0 maxDepth

/-- What a relationship leads to, where the registry knows it. -/
def meant (r : Registry) (t : Target) : ResourceType := (r.resolve t).toOption.getD default

/-- The relationships of a type that clients may follow to one entity. -/
def singulars (t : ResourceType) : List Relationship :=
  t.readableRelationships.filter fun rel => !rel.isMany

namespace Spot

/-- The route of a relationship to one of the members. -/
def singular (r : Registry) (p : Spot) (rel : Relationship) : Route :=
  { pattern := p.branchPattern rel.name, methods := [.get], kind := .singular
    scope := some (.singular (meant r rel.target) p.scope.idParam p.scope rel) }

/-- The routes at a spot: the collection, its members, and what their relationships to one
lead to. -/
def routes (r : Registry) (p : Spot) : List Route :=
  ownRoutes p.scope p.pattern ++ (singulars p.scope.memberType).map (p.singular r)

end Spot

/-- The route of the root. -/
def rootRoute (path : String) : Route :=
  { pattern := [.text path], methods := [.get], kind := .root, scope := none }

/-- The targets of the relationships, readable or not, and of the finders of a type. -/
def targets (t : ResourceType) : List Target :=
  t.relationships.map Relationship.target ++ t.finders.map Finder.target

/-- Every target of a registered type is a registered type. -/
def Closed (r : Registry) : Prop :=
  ∀ t ∈ r.types, ∀ target ∈ targets t, ∃ t', r.resolve target = .ok t'

variable {r : Registry}

/-! ## The ways of a registry in a list -/

/-- The steps that begin with a branch to many of a type and are not blocked. -/
def descentsBy (r : Registry) (deeper : ResourceType → Edge → List (List Step))
    (t : ResourceType) (visited : List Edge) (b : Branch × Nat) : List (List Step) :=
  if visited.contains (t.name, b.1.name) || !b.1.isDeep then []
  else
    match r.resolve b.1.target with
    | .ok t' =>
      (deeper t' (t.name, b.1.name)).map ({ place := b.2, branch := b.1, target := t' } :: ·)
    | .error _ => []

/-- The steps from a type that take none of the visited edges and no edge twice, at most
`n` of them. -/
def descents (r : Registry) : (n : Nat) → ResourceType → List Edge → List (List Step)
  | 0, _, _ => [[]]
  | n + 1, t, visited =>
    [] :: (branches t).zipIdx.flatMap
      (descentsBy r (fun t' e => descents r n t' (visited ++ [e])) t visited)

theorem mem_descentsBy {deeper : ResourceType → Edge → List (List Step)} {t : ResourceType}
    {visited : List Edge} {b : Branch × Nat} {xs : List Step} :
    xs ∈ descentsBy r deeper t visited b ↔
      (t.name, b.1.name) ∉ visited ∧ b.1.isDeep = true ∧ ∃ t', r.resolve b.1.target = .ok t' ∧
        ∃ ys ∈ deeper t' (t.name, b.1.name), xs = ⟨b.2, b.1, t'⟩ :: ys := by
  unfold descentsBy
  by_cases hb : visited.contains (t.name, b.1.name) || !b.1.isDeep
  · rw [if_pos hb]
    simp only [List.not_mem_nil, false_iff]
    rintro ⟨hv, hd, -⟩
    simp [hd, hv] at hb
  · rw [if_neg hb]
    have hb' : (t.name, b.1.name) ∉ visited ∧ b.1.isDeep = true := by simpa using hb
    cases hr : r.resolve b.1.target with
    | error f => simp
    | ok t' => simp [hb', eq_comm]

theorem mem_descents : ∀ {n : Nat} {t : ResourceType} {visited : List Edge} {xs : List Step},
    xs ∈ descents r n t visited ↔ Follows r t xs ∧ xs.length ≤ n ∧ (edges t xs).Nodup ∧
      ∀ e ∈ edges t xs, e ∉ visited
  | n, t, visited, [] => by cases n <;> simp [descents, Follows, edges]
  | 0, t, visited, x :: xs => by simp [descents]
  | n + 1, t, visited, x :: xs => by
    simp only [descents, List.mem_cons, reduceCtorEq, List.mem_flatMap, false_or, Prod.exists,
      mem_descentsBy, List.cons.injEq, List.mk_mem_zipIdx_iff_getElem?, mem_descents]
    constructor
    · rintro ⟨b, i, hi, hv, hd, t', ht', ys, ⟨hf, hl, hn, he⟩, rfl, rfl⟩
      refine ⟨⟨hi, hd, ht', hf⟩, by simpa using hl, ?_, ?_⟩
      · simp only [edges, List.nodup_cons]
        exact ⟨fun h => he _ h (by simp), hn⟩
      · simp only [edges, List.mem_cons]
        rintro e (rfl | h)
        · exact hv
        · exact fun h' => he e h (by simp [h'])
    · rintro ⟨⟨hi, hd, ht', hf⟩, hl, hn, he⟩
      simp only [edges, List.nodup_cons, List.mem_cons, forall_eq_or_imp] at hn he
      refine ⟨x.branch, x.place, hi, he.1, hd, x.target, ht', xs,
        ⟨hf, by simpa using hl, hn.2, fun e h => ?_⟩, rfl, rfl⟩
      simp only [List.mem_append, List.mem_singleton, not_or]
      exact ⟨he.2 e h, fun h' => hn.1 (h' ▸ h)⟩

theorem memberType_childScope (s : Scope) (t : ResourceType) (p : String) (b : Branch) :
    (childScope s t p b).memberType = t := by
  cases b <;> rfl

theorem meant_eq {target : Target} {t : ResourceType} (h : r.resolve target = .ok t) :
    meant r target = t := by
  simp [meant, h, Except.toOption]

theorem target_mem_targets {t : ResourceType} {b : Branch} (h : b ∈ branches t) :
    b.target ∈ targets t := by
  simp only [branches, ResourceType.readableRelationships, List.mem_append, List.mem_map,
    List.mem_filter] at h
  simp only [targets, List.mem_append, List.mem_map]
  rcases h with ⟨rel, ⟨hrel, -⟩, rfl⟩ | ⟨f, hf, rfl⟩
  · exact Or.inl ⟨rel, hrel, rfl⟩
  · exact Or.inr ⟨f, hf, rfl⟩

/-- The routes that a branch adds below a spot: one for a relationship to one, for a branch
to many those that `deeper` gives. -/
def branchRoutes (r : Registry) (deeper : Branch → ResourceType → List Route) (p : Spot)
    (b : Branch) : List Route :=
  match r.resolve b.target, b with
  | .error _, _ => []
  | .ok target, .relationship rel =>
    if rel.isMany then deeper (.relationship rel) target else [p.singular r rel]
  | .ok target, .finder f => deeper (.finder f) target

theorem below_zero (p : Spot) (visited : List Edge) :
    below r 0 p.scope p.pattern p.params visited = ownRoutes p.scope p.pattern ++
      (branches p.scope.memberType).flatMap (branchRoutes r (fun _ _ => []) p) := by
  rw [below]
  congr 2
  funext b
  cases hr : r.resolve b.target with
  | error f => simp [branchRoutes, hr]
  | ok t =>
    cases b with
    | finder f => simp [branchRoutes, hr]
    | relationship rel =>
      have hm : meant r rel.target = t := meant_eq hr
      simp [branchRoutes, hr, Spot.singular, hm, Spot.branchPattern, Spot.entityPattern,
        Branch.name]

theorem below_succ (n : Nat) (p : Spot) {visited : List Edge}
    (hv : visited.length = p.params.length) :
    below r (n + 1) p.scope p.pattern p.params visited = ownRoutes p.scope p.pattern ++
      (branches p.scope.memberType).flatMap (branchRoutes r (fun b t =>
        let e := (p.scope.memberType.name, b.name)
        let q := p.advance { place := 0, branch := b, target := t }
        if visited.contains e then []
        else below r n q.scope q.pattern q.params (visited ++ [e])) p) := by
  rw [below]
  congr 2
  funext b
  cases hr : r.resolve b.target with
  | error f => simp [branchRoutes, hr]
  | ok t =>
    cases b with
    | finder f => simp [branchRoutes, hr, Spot.advance, Spot.branchPattern, Spot.entityPattern, hv]
    | relationship rel =>
      have hm : meant r rel.target = t := meant_eq hr
      simp [branchRoutes, hr, Spot.singular, hm, Spot.advance, Spot.branchPattern,
        Spot.entityPattern, hv, Branch.name]

/-- The routes of relationships to one, and those of branches to many, of a list of
branches. -/
theorem flatMap_branchRoutes_perm (deeper : Branch → ResourceType → List Route) (p : Spot)
    (t : ResourceType) (hr : ∀ b ∈ branches t, ∃ t', r.resolve b.target = .ok t') :
    ((branches t).flatMap (branchRoutes r deeper p)).Perm
      ((singulars t).map (p.singular r) ++ (branches t).flatMap fun b =>
        if b.isDeep then deeper b (meant r b.target) else []) := by
  have hsplit : ∀ b ∈ branches t, branchRoutes r deeper p b =
      (match b with
        | .relationship rel => if rel.isMany then [] else [p.singular r rel]
        | .finder _ => []) ++ if b.isDeep then deeper b (meant r b.target) else [] := by
    intro b hb
    obtain ⟨t', ht'⟩ := hr b hb
    have hm : meant r b.target = t' := meant_eq ht'
    cases b with
    | finder f => simp [branchRoutes, ht', hm, Branch.isDeep]
    | relationship rel =>
      by_cases hrel : rel.isMany <;> simp [branchRoutes, ht', hm, Branch.isDeep, hrel]
  rw [List.flatMap_congr hsplit]
  refine (List.flatMap_append_perm _ _ _).symm.trans (List.Perm.append_right _ ?_)
  have hone : ∀ rels : List Relationship,
      rels.flatMap (fun rel => if rel.isMany then [] else [p.singular r rel]) =
        (rels.filter fun rel => !rel.isMany).map (p.singular r) := by
    intro rels
    induction rels with
    | nil => rfl
    | cons rel rels ih => by_cases hrel : rel.isMany <;> simp [hrel, ih]
  refine List.Perm.of_eq ?_
  rw [branches, List.flatMap_append, List.flatMap_map, List.flatMap_map, hone]
  simp [singulars]

/-- The routes below a spot are those at the spots that steps from it lead to. -/
theorem below_perm (hr : Closed r) : ∀ (n : Nat) (p : Spot) (visited : List Edge),
    p.scope.memberType ∈ r.types → visited.length = p.params.length →
    (below r n p.scope p.pattern p.params visited).Perm
      ((descents r n p.scope.memberType visited).flatMap fun xs =>
        (xs.foldl Spot.advance p).routes r)
  | n, p, visited, hp, hv => by
    have hres : ∀ b ∈ branches p.scope.memberType, ∃ t', r.resolve b.target = .ok t' :=
      fun b hb => hr _ hp _ (target_mem_targets hb)
    cases n with
    | zero =>
      rw [below_zero]
      refine ((flatMap_branchRoutes_perm _ p _ hres).append_left _).trans (List.Perm.of_eq ?_)
      simp [descents, Spot.routes]
    | succ n =>
      rw [below_succ n p hv]
      refine ((flatMap_branchRoutes_perm _ p _ hres).append_left _).trans ?_
      rw [descents, List.flatMap_cons, List.foldl_nil, Spot.routes, List.append_assoc]
      refine ((List.Perm.append_left _ ?_).append_left _)
      rw [List.flatMap_assoc]
      conv_lhs => rw [← List.zipIdx_map_fst 0 (branches p.scope.memberType), List.flatMap_map]
      refine List.Perm.flatMap_left _ fun b hb => ?_
      obtain ⟨t', ht'⟩ := hres b.1 (List.fst_mem_of_mem_zipIdx hb)
      have hm : meant r b.1.target = t' := meant_eq ht'
      by_cases hd : b.1.isDeep
      · by_cases hc : (p.scope.memberType.name, b.1.name) ∈ visited
        · simp [descentsBy, hd, hc]
        · have hq := below_perm hr n (p.advance ⟨b.2, b.1, t'⟩)
            (visited ++ [(p.scope.memberType.name, b.1.name)])
            (by simpa [Spot.advance, memberType_childScope] using Registry.resolve_mem ht')
            (by simp [Spot.advance, hv])
          simpa [descentsBy, hd, hc, ht', hm, List.flatMap_map, Spot.advance,
            memberType_childScope] using hq
      · simp [descentsBy, hd]


/-! ## The routes of a registry -/

/-- The ways of a registry with at most `n` steps. -/
def ways (r : Registry) (n : Nat) : List Way :=
  r.types.zipIdx.flatMap fun t =>
    (descents r n t.1 []).map fun xs => { place := t.2, start := t.1, steps := xs }

theorem mem_ways {maxDepth : Int} {w : Way} : w ∈ ways r maxDepth.toNat ↔ w.IsIn r maxDepth := by
  simp only [ways, List.mem_flatMap, List.mem_map, Prod.exists, List.mk_mem_zipIdx_iff_getElem?,
    mem_descents]
  constructor
  · rintro ⟨t, i, hi, xs, ⟨hf, hl, hn, -⟩, rfl⟩
    exact ⟨hi, hf, hn, by simp only; omega⟩
  · rintro ⟨hi, hf, hn, hl⟩
    exact ⟨w.start, w.place, hi, w.steps, ⟨hf, by omega, hn, by simp⟩, rfl⟩

theorem ofType_perm (hr : Closed r) (maxDepth : Int) {t : ResourceType} (ht : t ∈ r.types) :
    (ofType r maxDepth t).Perm ((descents r maxDepth.toNat t []).flatMap fun xs =>
      (xs.foldl Spot.advance (.ofType t)).routes r) :=
  below_perm hr maxDepth.toNat (.ofType t) [] ht rfl

/-- The routes of all types are those at the spots of the ways. -/
theorem flatMap_ofType_perm (hr : Closed r) (maxDepth : Int) :
    (r.types.flatMap (ofType r maxDepth)).Perm
      ((ways r maxDepth.toNat).flatMap fun w => w.spot.routes r) := by
  rw [ways, List.flatMap_assoc]
  conv_lhs => rw [← List.zipIdx_map_fst 0 r.types, List.flatMap_map]
  refine List.Perm.flatMap_left _ fun t ht => ?_
  rw [List.flatMap_map]
  exact ofType_perm hr maxDepth (List.fst_mem_of_mem_zipIdx ht)

/-- Checks one after the other succeed, or fail as one of them does. -/
theorem forM_except {α ε : Type} (f : α → Except ε Unit) (xs : List α) :
    (∀ x ∈ xs, f x = .ok ()) ∧ xs.forM f = .ok () ∨
      ∃ x ∈ xs, ∃ e, f x = .error e ∧ xs.forM f = .error e := by
  induction xs with
  | nil => exact Or.inl ⟨by simp, rfl⟩
  | cons x xs ih =>
    have hcons : (x :: xs).forM f = f x >>= fun _ => xs.forM f := rfl
    rw [hcons]
    cases hx : f x with
    | error e => exact Or.inr ⟨x, by simp, e, hx, rfl⟩
    | ok u =>
      rcases ih with ⟨h, he⟩ | ⟨y, hy, e, hye, he⟩
      · exact Or.inl ⟨by simpa [hx] using h, he⟩
      · exact Or.inr ⟨y, by simp [hy], e, hye, he⟩

/-- The check of one target. -/
def checkTarget (r : Registry) (target : Target) : Except Fault Unit :=
  (r.resolve target).map fun _ => ()

theorem checkTarget_eq_ok {target : Target} :
    checkTarget r target = .ok () ↔ ∃ t', r.resolve target = .ok t' := by
  unfold checkTarget
  cases r.resolve target <;> simp [Except.map]

theorem checkTarget_eq_error {target : Target} {f : Fault} (h : checkTarget r target = .error f) :
    ∃ name, f = .schema (.unknownTarget name) := by
  unfold checkTarget at h
  cases target <;> simp only [Registry.resolve] at h <;> split at h <;> cases h <;>
    exact ⟨_, rfl⟩

/-- The check of the targets fails exactly where one of them is not registered. -/
theorem checkTargets_cases (r : Registry) :
    Closed r ∧ checkTargets r = .ok () ∨
      ¬Closed r ∧ ∃ name, checkTargets r = .error (.schema (.unknownTarget name)) := by
  have heq : checkTargets r = r.types.forM fun t => (targets t).forM (checkTarget r) := rfl
  rw [heq]
  rcases forM_except (fun t => (targets t).forM (checkTarget r)) r.types with
    ⟨h, he⟩ | ⟨t, ht, f, hf, he⟩
  · refine Or.inl ⟨fun t ht target htarget => ?_, he⟩
    rcases forM_except (checkTarget r) (targets t) with ⟨h', -⟩ | ⟨x, -, e, -, he'⟩
    · exact checkTarget_eq_ok.1 (h' target htarget)
    · rw [h t ht] at he'
      cases he'
  · rcases forM_except (checkTarget r) (targets t) with ⟨-, h'⟩ | ⟨x, hx, e, hxe, he'⟩
    · rw [h'] at hf
      cases hf
    · obtain ⟨name, rfl⟩ := checkTarget_eq_error hxe
      rw [he'] at hf
      cases hf
      refine Or.inr ⟨fun hc => ?_, name, he⟩
      rw [checkTarget_eq_ok.2 (hc t ht x hx)] at hxe
      cases hxe

/-- The routes of a registry all of whose targets are registered, and the fault of one with
another target. -/
theorem routes_cases (r : Registry) (maxDepth : Int) (rootPath : String) :
    Closed r ∧ routes r maxDepth rootPath =
        .ok ⟨rootRoute rootPath :: r.types.flatMap (ofType r maxDepth)⟩ ∨
      ¬Closed r ∧
        ∃ name, routes r maxDepth rootPath = .error (.schema (.unknownTarget name)) := by
  rcases checkTargets_cases r with ⟨hc, he⟩ | ⟨hc, name, he⟩
  · exact Or.inl ⟨hc, by rw [routes, he]; rfl⟩
  · exact Or.inr ⟨hc, name, by rw [routes, he]; rfl⟩

theorem exists_collection_route (r : Registry) (p : Spot) :
    ∃ x ∈ p.routes r, x.kind = .collection ∧ x.pattern = p.pattern ∧ x.scope = some p.scope ∧
      .get ∈ x.methods := by
  refine ⟨_, List.mem_append_left _ List.mem_cons_self, rfl, rfl, rfl, ?_⟩
  dsimp only
  split <;> simp

theorem exists_entity_route (r : Registry) (p : Spot) :
    ∃ x ∈ p.routes r, x.kind = .entity ∧ x.pattern = p.entityPattern ∧ x.scope = some p.scope ∧
      .get ∈ x.methods := by
  refine ⟨_, List.mem_append_left _ (List.mem_cons_of_mem _ List.mem_cons_self), rfl, rfl, rfl, ?_⟩
  dsimp only
  split <;> simp

/-- The routes of a table are the root and those at the spots of the ways. -/
theorem mem_routes {maxDepth : Int} {rootPath : String} {table : RouteTable}
    (h : routes r maxDepth rootPath = .ok table) {x : Route} :
    x ∈ table.routes ↔ x = rootRoute rootPath ∨
      ∃ w : Way, w.IsIn r maxDepth ∧ x ∈ w.spot.routes r := by
  rcases routes_cases r maxDepth rootPath with ⟨hc, he⟩ | ⟨-, name, he⟩
  · obtain rfl := Except.ok.inj (he.symm.trans h)
    simp only [List.mem_cons, (flatMap_ofType_perm hc maxDepth).mem_iff, List.mem_flatMap, mem_ways]
  · rw [he] at h
    cases h

end Hypermedia.Tree
