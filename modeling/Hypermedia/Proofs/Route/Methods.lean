import Hypermedia.Proofs.Route.Ways

/-!
# What may be written where

A scope is open if no finder stands in its chain and its type has members of its own. A scope
hands its read-only flag on to those below it, so on every way the flag says whether a finder
was passed (`Way.readOnly_spot`), in whatever order relationships and finders were taken. Every
route of a registry can be read; collections take new members, and entities are changed and
deleted, exactly in open scopes (`methods_of_mem_routes`).
-/

namespace Hypermedia

namespace Scope

/-- Is the last step that of a finder? -/
def isFinder : Scope → Bool
  | .finder _ _ _ _ => true
  | _ => false

/-- No finder stands in the chain of the scope, and its type is not abstract. -/
structure IsOpen (s : Scope) : Prop where
  noFinder : ∀ x ∈ s.chain, x.isFinder = false
  concrete : s.memberType.isAbstract = false

/-- The read-only flag says whether a finder stands in the chain. -/
def IsFlagged (s : Scope) : Prop := s.readOnly = s.chain.any isFinder

theorem IsFlagged.isMutable_iff {s : Scope} (h : s.IsFlagged) : s.isMutable = true ↔ s.IsOpen := by
  have hany : s.chain.any isFinder = false ↔ ∀ x ∈ s.chain, x.isFinder = false := by simp
  rw [isMutable, show s.readOnly = s.chain.any isFinder from h, Bool.not_eq_true',
    Bool.or_eq_false_iff, hany]
  exact ⟨fun ⟨hno, hab⟩ => ⟨hno, hab⟩, fun ⟨hno, hab⟩ => ⟨hno, hab⟩⟩

end Scope

/-- The scope of a route is open. The root has none. -/
def Route.IsOpen (x : Route) : Prop := ∃ s, x.scope = some s ∧ s.IsOpen

namespace Tree

variable {r : Registry}

/-! ## The flag on the way -/

theorem isFlagged_childScope {s : Scope} (h : s.IsFlagged) (t : ResourceType) (p : String)
    (b : Branch) : (childScope s t p b).IsFlagged := by
  cases b with
  | relationship rel =>
    -- A relationship hands the flag on and adds no finder.
    change s.readOnly = (false || s.chain.any Scope.isFinder)
    rw [Bool.false_or]
    exact h
  | finder f => rfl

theorem isFlagged_foldl (xs : List Step) : ∀ {p : Spot}, p.scope.IsFlagged →
    (xs.foldl Spot.advance p).scope.IsFlagged := by
  induction xs with
  | nil => exact fun h => h
  | cons x xs ih => exact fun h => ih (isFlagged_childScope h _ _ _)

/-- The scope at the spot of a way is read-only exactly if the way passes a finder. -/
theorem Way.readOnly_spot (w : Way) : w.spot.scope.IsFlagged :=
  isFlagged_foldl w.steps (p := .ofType w.start) rfl

/-! ## The methods of routes -/

/-- The methods of the routes at a spot whose flag is right. -/
theorem methods_of_mem_spot {p : Spot} (hp : p.scope.IsFlagged) {x : Route} (hx : x ∈ p.routes r) :
    .get ∈ x.methods ∧ (.post ∈ x.methods ↔ x.kind = .collection ∧ x.IsOpen) ∧
      (.put ∈ x.methods ↔ x.kind = .entity ∧ x.IsOpen) ∧
      (.delete ∈ x.methods ↔ x.kind = .entity ∧ x.IsOpen) := by
  have hopen : ∀ {y : Route}, y.scope = some p.scope →
      (y.IsOpen ↔ p.scope.isMutable = true) := by
    intro y hy
    rw [hp.isMutable_iff]
    refine ⟨fun ⟨s, hs, h⟩ => ?_, fun h => ⟨_, hy, h⟩⟩
    rwa [← Option.some.inj (hs.symm.trans hy)]
  rcases List.mem_append.1 hx with hx | hx
  · simp only [ownRoutes, List.mem_cons, List.not_mem_nil, or_false] at hx
    rcases hx with rfl | rfl <;> rw [hopen rfl] <;> cases p.scope.isMutable <;> simp
  · obtain ⟨rel, -, rfl⟩ := List.mem_map.1 hx
    simp [Spot.singular]

/-- Every route of a registry can be read. Members are created exactly in open collections,
and changed and deleted exactly as entities of open scopes. -/
theorem methods_of_mem_routes {maxDepth : Int} {rootPath : String} {table : RouteTable}
    (h : routes r maxDepth rootPath = .ok table) {x : Route} (hx : x ∈ table.routes) :
    .get ∈ x.methods ∧ (.post ∈ x.methods ↔ x.kind = .collection ∧ x.IsOpen) ∧
      (.put ∈ x.methods ↔ x.kind = .entity ∧ x.IsOpen) ∧
      (.delete ∈ x.methods ↔ x.kind = .entity ∧ x.IsOpen) := by
  rcases (mem_routes h).1 hx with rfl | ⟨w, -, hw⟩
  · simp [rootRoute]
  · exact methods_of_mem_spot w.readOnly_spot hw

/-- Threads with their replies and a finder of those that are open. -/
def threadType : ResourceType where
  name := "Thread"
  relationships := [{ name := "replies", target := .named "Thread" }]
  finders := [{ name := "open", target := .named "Thread", rule := .select none none false }]
  plural := some "threads"

/-- The way from the threads by the finder and then by the relationship. -/
def openReplies : Way where
  place := 0
  start := threadType
  steps := (branches threadType).zipIdx.reverse.map fun b =>
    { place := b.2, branch := b.1, target := threadType }

/-- Replies of the open threads of a thread cannot be created there, as a finder stands in the
chain. -/
theorem methods_of_mem_routes_threads : ∃ table, routes ⟨[threadType]⟩ 2 "/root" = .ok table ∧
    ∃ x ∈ table.routes, x.spelling = "/threads/<rid:thread_id>/open/<rid:thread_id1>/replies" ∧
      .post ∉ x.methods := by
  obtain ⟨table, h⟩ : ∃ table, routes ⟨[threadType]⟩ 2 "/root" = .ok table := ⟨_, rfl⟩
  have hw : openReplies.IsIn ⟨[threadType]⟩ 2 :=
    { start := rfl, follows := ⟨rfl, rfl, rfl, rfl, rfl, rfl, trivial⟩
      edges_nodup := by decide, length_le := by decide }
  obtain ⟨x, hx, -, hpattern, hscope, -⟩ := exists_collection_route ⟨[threadType]⟩ openReplies.spot
  have hmem : x ∈ table.routes := (mem_routes h).2 (.inr ⟨_, hw, hx⟩)
  refine ⟨table, h, x, hmem, by rw [Route.spelling, hpattern]; decide +kernel, fun hpost => ?_⟩
  obtain ⟨-, s, hs, hopen⟩ := (methods_of_mem_routes h hmem).2.1.1 hpost
  obtain rfl := Option.some.inj (hscope.symm.trans hs)
  exact absurd (hopen.noFinder _ (List.mem_cons_of_mem _ List.mem_cons_self)) (by decide)

end Tree

end Hypermedia
