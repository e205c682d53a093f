import Hypermedia.Proofs.Route.Ways

/-!
# Formed scopes

The scopes of the routes of a registry are formed: each step takes a readable relationship or
a finder of the type that the scope above leads to, and leads to its target
(`Scope.Formed`, `Tree.formed_of_mem_routes`).
-/

namespace Hypermedia

namespace Scope

/-- Each step of a scope leads on from the type that the scope above it leads to, by a
relationship that clients may follow or by a finder. -/
def Formed (reg : Registry) : Scope → Prop
  | .type t _ => t ∈ reg.types
  | .relationship t _ _ parent rel =>
    parent.Formed reg ∧ rel ∈ parent.memberType.readableRelationships ∧ rel.isMany = true ∧
      reg.resolve rel.target = .ok t
  | .finder t _ parent f =>
    parent.Formed reg ∧ f ∈ parent.memberType.finders ∧ reg.resolve f.target = .ok t
  | .singular t _ parent rel =>
    parent.Formed reg ∧ rel ∈ parent.memberType.readableRelationships ∧ rel.isMany = false ∧
      reg.resolve rel.target = .ok t

theorem Formed.memberType_mem {reg : Registry} {sc : Scope} (h : sc.Formed reg) :
    sc.memberType ∈ reg.types := by
  cases sc with
  | type => exact h
  | relationship => exact Registry.resolve_mem h.2.2.2
  | finder => exact Registry.resolve_mem h.2.2
  | singular => exact Registry.resolve_mem h.2.2.2

end Scope

/-- The scope of a route is formed, and new members are only made where they may be. -/
def Route.Formed (reg : Registry) (x : Route) : Prop :=
  ∀ sc, x.scope = some sc → sc.Formed reg ∧ (.post ∈ x.methods → sc.isMutable = true)

namespace Tree

variable {r : Registry}

theorem formed_childScope {sc : Scope} (h : sc.Formed r) {b : Branch}
    (hb : b ∈ branches sc.memberType) (hdeep : b.isDeep = true) {t : ResourceType}
    (ht : r.resolve b.target = .ok t) (p : String) : (childScope sc t p b).Formed r := by
  simp only [branches, List.mem_append, List.mem_map] at hb
  rcases hb with ⟨rel, hrel, rfl⟩ | ⟨f, hf, rfl⟩
  · exact ⟨h, hrel, hdeep, ht⟩
  · exact ⟨h, hf, ht⟩

theorem formed_foldl {xs : List Step} : ∀ {p : Spot}, p.scope.Formed r →
    Follows r p.scope.memberType xs → (xs.foldl Spot.advance p).scope.Formed r := by
  induction xs with
  | nil => exact fun h _ => h
  | cons x xs ih =>
    intro p h hfollows
    obtain ⟨hplace, hdeep, ht, hrest⟩ := hfollows
    refine ih (formed_childScope h (List.mem_of_getElem? hplace) hdeep ht _) ?_
    rwa [Spot.advance, memberType_childScope]

/-- The scope at the spot of a way is formed. -/
theorem Way.IsIn.formed {maxDepth : Int} {w : Way} (hw : w.IsIn r maxDepth) :
    w.spot.scope.Formed r :=
  formed_foldl (p := .ofType w.start) (List.mem_of_getElem? hw.start) hw.follows

/-- The collection and the entities at a spot have its scope, and more than reading is for clients
that may write there. -/
theorem scope_of_mem_ownRoutes {sc : Scope} {pattern : Pattern} {x : Route}
    (hx : x ∈ ownRoutes sc pattern) :
    x.scope = some sc ∧ ∀ y ∈ x.methods, y ≠ .get → sc.isMutable = true := by
  simp only [ownRoutes, List.mem_cons, List.not_mem_nil, or_false] at hx
  rcases hx with rfl | rfl <;> refine ⟨rfl, ?_⟩ <;> cases sc.isMutable <;> simp

/-- Where more than reading is served clients may write. -/
theorem isMutable_of_mem_routes {maxDepth : Int} {rootPath : String} {table : RouteTable}
    (h : routes r maxDepth rootPath = .ok table) {x : Route} (hx : x ∈ table.routes) {y : Method}
    (hy : y ∈ x.methods) (hget : y ≠ .get) {sc : Scope} (hsc : x.scope = some sc) :
    sc.isMutable = true := by
  rcases (mem_routes h).1 hx with rfl | ⟨w, -, hx⟩
  · cases hsc
  rcases List.mem_append.1 hx with hx | hx
  · obtain ⟨hscope, hwrites⟩ := scope_of_mem_ownRoutes hx
    exact Option.some.inj (hscope.symm.trans hsc) ▸ hwrites y hy hget
  · obtain ⟨rel, -, rfl⟩ := List.mem_map.1 hx
    simp only [Spot.singular, List.mem_singleton] at hy
    exact absurd hy hget

/-- The routes of a registry are formed. -/
theorem formed_of_mem_routes {maxDepth : Int} {rootPath : String} {table : RouteTable}
    (h : routes r maxDepth rootPath = .ok table) {x : Route} (hx : x ∈ table.routes) :
    x.Formed r := by
  have hclosed : Closed r := by
    rcases routes_cases r maxDepth rootPath with ⟨hc, -⟩ | ⟨-, name, he⟩
    · exact hc
    · rw [he] at h
      cases h
  rcases (mem_routes h).1 hx with rfl | ⟨w, hw, hx⟩
  · rintro sc ⟨⟩
  have hformed := hw.formed
  rintro sc hsc
  rcases List.mem_append.1 hx with hx | hx
  · obtain ⟨hscope, hwrites⟩ := scope_of_mem_ownRoutes hx
    exact Option.some.inj (hscope.symm.trans hsc) ▸
      ⟨hformed, fun hpost => hwrites _ hpost (by decide)⟩
  · obtain ⟨rel, hrel, rfl⟩ := List.mem_map.1 hx
    obtain ⟨hreadable, hone⟩ := List.mem_filter.1 hrel
    obtain ⟨t, ht⟩ := hclosed _ hformed.memberType_mem rel.target
      (List.mem_append_left _ (List.mem_map_of_mem (List.mem_filter.1 hreadable).1))
    cases hsc
    exact ⟨⟨hformed, hreadable, by simpa using hone, by rw [meant_eq ht]; exact ht⟩,
      fun hpost => by simp [Spot.singular] at hpost⟩

end Tree

end Hypermedia
