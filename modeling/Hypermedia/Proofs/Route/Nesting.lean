import Hypermedia.Proofs.Route.Methods
import Mathlib.Data.List.Perm.Subperm

/-!
# The depth of the tree of routes

The depth only cuts: the routes below a spot with fewer steps are those with more steps, without
the ones that are nested deeper, in the same order and with the same patterns, methods and scopes
(`Tree.below_eq_cut`, `Tree.routes_of_depth`). A way takes no edge twice, so from the number of
edges of the registry on the depth cuts nothing (`Tree.nesting_le_of_mem_routes`).
-/

namespace Hypermedia

/-! ## Nesting -/

namespace Scope

/-- Is the last step that of a relationship to many or of a finder? -/
def isNested : Scope → Bool
  | .relationship .. | .finder .. => true
  | .type .. | .singular .. => false

/-- The number of collections of relationships and finders in the chain of the scope. -/
def nesting (s : Scope) : Nat := s.chain.countP isNested

@[simp] theorem nesting_type (t : ResourceType) (p : String) : (Scope.type t p).nesting = 0 := rfl

@[simp] theorem nesting_singular (t : ResourceType) (p : String) (s : Scope) (rel : Relationship) :
    (Scope.singular t p s rel).nesting = s.nesting := rfl

end Scope

/-- How deep the collections of a route are nested; the root stands outside. -/
def Route.nesting (x : Route) : Nat := (x.scope.map Scope.nesting).getD 0

namespace Tree

variable {r : Registry}

@[simp] theorem nesting_childScope (s : Scope) (t : ResourceType) (p : String) (b : Branch) :
    (childScope s t p b).nesting = s.nesting + 1 := by
  cases b <;> exact List.countP_cons_of_pos rfl

@[simp] theorem nesting_advance (p : Spot) (x : Step) :
    (p.advance x).scope.nesting = p.scope.nesting + 1 :=
  nesting_childScope _ _ _ _

@[simp] theorem nesting_singular (p : Spot) (rel : Relationship) :
    (p.singular r rel).nesting = p.scope.nesting := rfl

theorem nesting_of_mem_ownRoutes {s : Scope} {pattern : Pattern} {x : Route}
    (hx : x ∈ ownRoutes s pattern) : x.nesting = s.nesting := by
  simp only [ownRoutes, List.mem_cons, List.not_mem_nil, or_false] at hx
  rcases hx with rfl | rfl <;> rfl

theorem nesting_foldl (xs : List Step) : ∀ p : Spot,
    (xs.foldl Spot.advance p).scope.nesting = p.scope.nesting + xs.length := by
  induction xs with
  | nil => exact fun _ => rfl
  | cons x xs ih =>
    intro p
    rw [List.foldl_cons, ih, nesting_advance, List.length_cons]
    omega

/-- The routes at a spot are nested as deep as its scope. -/
theorem nesting_of_mem_spot {p : Spot} {x : Route} (hx : x ∈ p.routes r) :
    x.nesting = p.scope.nesting := by
  rcases List.mem_append.1 hx with hx | hx
  · exact nesting_of_mem_ownRoutes hx
  · obtain ⟨rel, -, rfl⟩ := List.mem_map.1 hx
    rfl

/-- The routes of a way are nested as deep as the way has steps. -/
theorem nesting_of_mem_way {w : Way} {x : Route} (hx : x ∈ w.spot.routes r) :
    x.nesting = w.steps.length := by
  have hstart : (Spot.ofType w.start).scope.nesting = 0 := rfl
  rw [nesting_of_mem_spot hx, Way.spot, nesting_foldl, hstart, Nat.zero_add]

/-! ## Cutting the routes below a spot -/

/-- Routes without those that are nested deeper than `d`. -/
def cut (d : Nat) (xs : List Route) : List Route := xs.filter fun x => x.nesting ≤ d

theorem cut_append (d : Nat) (xs ys : List Route) : cut d (xs ++ ys) = cut d xs ++ cut d ys :=
  List.filter_append ..

theorem cut_eq_self {d : Nat} {xs : List Route} (h : ∀ x ∈ xs, x.nesting ≤ d) : cut d xs = xs :=
  List.filter_eq_self.2 fun x hx => decide_eq_true (h x hx)

theorem cut_eq_nil {d : Nat} {xs : List Route} (h : ∀ x ∈ xs, d < x.nesting) : cut d xs = [] :=
  List.filter_eq_nil_iff.2 fun x hx => by simpa using h x hx

theorem cut_flatMap {α : Type} (d : Nat) (xs : List α) (f : α → List Route) :
    cut d (xs.flatMap f) = xs.flatMap fun a => cut d (f a) :=
  List.filter_flatMap ..

/-- A branch adds the route of a relationship to one, or routes that are deeper. -/
theorem mem_branchRoutes {deeper : Branch → ResourceType → List Route} {p : Spot} {b : Branch}
    {x : Route} (hx : x ∈ branchRoutes r deeper p b) :
    (∃ rel, b = .relationship rel ∧ rel.isMany = false ∧ x = p.singular r rel) ∨
      b.isDeep = true ∧ ∃ t, x ∈ deeper b t := by
  unfold branchRoutes at hx
  split at hx
  · cases hx
  · split at hx
    · next hmany => exact .inr ⟨hmany, _, hx⟩
    · next hone => exact .inl ⟨_, rfl, by simpa using hone, List.mem_singleton.1 hx⟩
  · exact .inr ⟨rfl, _, hx⟩

/-- What is not too deep at a spot stays, so only the routes of branches to many are cut. -/
theorem cut_branchRoutes {d : Nat} (deeper : Branch → ResourceType → List Route) {p : Spot}
    (hp : p.scope.nesting ≤ d) (b : Branch) :
    cut d (branchRoutes r deeper p b) = branchRoutes r (fun b t => cut d (deeper b t)) p b := by
  unfold branchRoutes
  split
  · rfl
  · split
    · rfl
    · exact cut_eq_self fun x hx => List.mem_singleton.1 hx ▸ hp
  · rfl

/-- The routes below a branch to many of a spot, with at most `n` steps from the spot on. -/
def deeperRoutes (r : Registry) (p : Spot) (visited : List Edge) :
    (n : Nat) → Branch → ResourceType → List Route
  | 0, _, _ => []
  | n + 1, b, t =>
    let e := (p.scope.memberType.name, b.name)
    let q := p.advance { place := 0, branch := b, target := t }
    if visited.contains e then [] else below r n q.scope q.pattern q.params (visited ++ [e])

/-- The routes below a spot are its own and those of its branches. -/
theorem below_eq (n : Nat) (p : Spot) {visited : List Edge}
    (hv : visited.length = p.params.length) :
    below r n p.scope p.pattern p.params visited = ownRoutes p.scope p.pattern ++
      (branches p.scope.memberType).flatMap (branchRoutes r (deeperRoutes r p visited n) p) := by
  cases n with
  | zero => exact below_zero p visited
  | succ n => exact below_succ n p hv

theorem mem_below {n : Nat} {p : Spot} {visited : List Edge}
    (hv : visited.length = p.params.length) {x : Route}
    (hx : x ∈ below r n p.scope p.pattern p.params visited) :
    x.nesting = p.scope.nesting ∨ ∃ b t, x ∈ deeperRoutes r p visited n b t := by
  rw [below_eq n p hv] at hx
  rcases List.mem_append.1 hx with hx | hx
  · exact .inl (nesting_of_mem_ownRoutes hx)
  · obtain ⟨b, -, hx⟩ := List.mem_flatMap.1 hx
    rcases mem_branchRoutes hx with ⟨rel, -, -, rfl⟩ | ⟨-, t, hx⟩
    · exact .inl rfl
    · exact .inr ⟨b, t, hx⟩

/-- The routes below a branch to many are nested deeper than the spot. -/
theorem lt_nesting_of_mem_deeperRoutes {n : Nat} {p : Spot} {visited : List Edge}
    (hv : visited.length = p.params.length) {b : Branch} {t : ResourceType} {x : Route}
    (hx : x ∈ deeperRoutes r p visited n b t) : p.scope.nesting < x.nesting := by
  induction n generalizing p visited b t with
  | zero => cases hx
  | succ n ih =>
    simp only [deeperRoutes] at hx
    split at hx
    · cases hx
    have hadvance := nesting_advance p ⟨0, b, t⟩
    have hv' : (visited ++ [(p.scope.memberType.name, b.name)]).length =
        (p.advance ⟨0, b, t⟩).params.length := by simp [Spot.advance, hv]
    rcases mem_below hv' hx with heq | ⟨b', t', hx⟩
    · omega
    · have hdeep := ih hv' hx
      omega

/-- The spot's own routes are not cut, so it is enough to cut what its branches to many lead to. -/
theorem cut_ownRoutes_append {d : Nat} {p : Spot} (hp : p.scope.nesting ≤ d)
    {deeper deeper' : Branch → ResourceType → List Route}
    (h : ∀ b t, deeper b t = cut d (deeper' b t)) :
    ownRoutes p.scope p.pattern ++ (branches p.scope.memberType).flatMap (branchRoutes r deeper p) =
      cut d (ownRoutes p.scope p.pattern ++
        (branches p.scope.memberType).flatMap (branchRoutes r deeper' p)) := by
  have hown : ∀ x ∈ ownRoutes p.scope p.pattern, x.nesting ≤ d :=
    fun x hx => nesting_of_mem_ownRoutes hx ▸ hp
  obtain rfl : deeper = fun b t => cut d (deeper' b t) := funext₂ h
  rw [cut_append, cut_eq_self hown, cut_flatMap]
  congr 2
  exact (funext (cut_branchRoutes deeper' hp)).symm

/-- With fewer steps the routes below a spot are those with more steps, without the ones that are
nested deeper than these steps allow. -/
theorem below_eq_cut {n m : Nat} (hnm : n ≤ m) {p : Spot} {visited : List Edge}
    (hv : visited.length = p.params.length) :
    below r n p.scope p.pattern p.params visited =
      cut (p.scope.nesting + n) (below r m p.scope p.pattern p.params visited) := by
  induction n generalizing m p visited with
  | zero =>
    rw [below_eq 0 p hv, below_eq m p hv]
    exact cut_ownRoutes_append (Nat.le_refl _) fun b t =>
      (cut_eq_nil fun x hx => lt_nesting_of_mem_deeperRoutes hv hx).symm
  | succ n ih =>
    obtain ⟨m, rfl⟩ := Nat.exists_eq_add_of_lt hnm
    rw [below_eq _ p hv, below_eq _ p hv]
    refine cut_ownRoutes_append (Nat.le_add_right _ _) fun b t => ?_
    simp only [deeperRoutes]
    split
    · rfl
    · rw [ih (Nat.le_add_right n m) (by simp [Spot.advance, hv]), nesting_advance,
        Nat.add_right_comm, Nat.add_assoc]

/-! ## Cutting the routes of a registry -/

theorem ofType_eq_cut {d d' : Int} (h : d ≤ d') (t : ResourceType) :
    ofType r d t = cut d.toNat (ofType r d' t) := by
  have hsteps : d.toNat ≤ d'.toNat := by omega
  have hvisited : ([] : List Edge).length = (Spot.ofType t).params.length := rfl
  have hbelow := below_eq_cut (r := r) hsteps hvisited
  rwa [show (Spot.ofType t).scope.nesting = 0 from rfl, Nat.zero_add] at hbelow

/-- The edges from the types of a registry to relationships to many and finders. -/
def allEdges (r : Registry) : List Edge :=
  r.types.flatMap fun t => ((branches t).filter Branch.isDeep).map fun b => (t.name, b.name)

theorem mem_allEdges {xs : List Step} : ∀ {t : ResourceType}, t ∈ r.types → Follows r t xs →
    edges t xs ⊆ allEdges r := by
  induction xs with
  | nil => exact fun _ _ => List.nil_subset _
  | cons x xs ih =>
    intro t ht hfollows
    obtain ⟨hplace, hdeep, htarget, hrest⟩ := hfollows
    refine List.cons_subset.2 ⟨?_, ih (Registry.resolve_mem htarget) hrest⟩
    exact List.mem_flatMap.2 ⟨t, ht, List.mem_map_of_mem
      (List.mem_filter.2 ⟨List.mem_of_getElem? hplace, hdeep⟩)⟩

theorem length_edges (xs : List Step) : ∀ t : ResourceType, (edges t xs).length = xs.length := by
  induction xs with
  | nil => exact fun _ => rfl
  | cons x xs ih => exact fun _ => congrArg (· + 1) (ih _)

/-- A way is no longer than there are edges, as it takes none of them twice. -/
theorem Way.IsIn.length_le_allEdges {maxDepth : Int} {w : Way} (hw : w.IsIn r maxDepth) :
    w.steps.length ≤ (allEdges r).length := by
  rw [← length_edges w.steps w.start]
  have hsubset := mem_allEdges (List.mem_of_getElem? hw.start) hw.follows
  exact (List.subperm_of_subset hw.edges_nodup hsubset).length_le

/-- No route is nested deeper than there are edges. -/
theorem nesting_le_of_mem_routes {maxDepth : Int} {rootPath : String} {table : RouteTable}
    (h : routes r maxDepth rootPath = .ok table) {x : Route} (hx : x ∈ table.routes) :
    x.nesting ≤ (allEdges r).length := by
  rcases (mem_routes h).1 hx with rfl | ⟨w, hw, hx⟩
  · exact Nat.zero_le _
  · exact nesting_of_mem_way hx ▸ hw.length_le_allEdges

theorem exists_routes (hr : Closed r) (maxDepth : Int) (rootPath : String) :
    ∃ table, routes r maxDepth rootPath = .ok table := by
  rcases routes_cases r maxDepth rootPath with ⟨-, h⟩ | ⟨hopen, -⟩
  · exact ⟨_, h⟩
  · exact absurd hr hopen

/-- A table of routes is cut out of each that is at least as deep. -/
theorem routes_eq_cut {d d' : Int} (h : d ≤ d') {rootPath : String}
    {table table' : RouteTable} (ht : routes r d rootPath = .ok table)
    (ht' : routes r d' rootPath = .ok table') : table.routes = cut d.toNat table'.routes := by
  rcases routes_cases r d rootPath with ⟨hr, he⟩ | ⟨-, name, he⟩
  · rcases routes_cases r d' rootPath with ⟨-, he'⟩ | ⟨hopen, -⟩
    · obtain rfl := Except.ok.inj (he.symm.trans ht)
      obtain rfl := Except.ok.inj (he'.symm.trans ht')
      change _ = cut _ ([rootRoute rootPath] ++ r.types.flatMap (ofType r d'))
      have hroot : cut d.toNat [rootRoute rootPath] = [rootRoute rootPath] :=
        cut_eq_self fun x hx => List.mem_singleton.1 hx ▸ Nat.zero_le _
      rw [cut_append, cut_flatMap, hroot]
      exact congrArg (rootRoute rootPath :: ·) (List.flatMap_congr fun t _ => ofType_eq_cut h t)
    · exact absurd hr hopen
  · rw [he] at ht
    cases ht

/-- The table of a depth is the table of each greater depth without the routes that are nested
deeper, and from the number of edges on it is always the same. -/
theorem routes_of_depth (hr : Closed r) (rootPath : String) :
    (∀ d d' : Int, 0 ≤ d → d ≤ d' → ∃ table table', routes r d rootPath = .ok table ∧
      routes r d' rootPath = .ok table' ∧
      table.routes = table'.routes.filter fun x => (x.nesting : Int) ≤ d) ∧
    ∀ d : Int, (allEdges r).length ≤ d →
      routes r d rootPath = routes r (allEdges r).length rootPath := by
  refine ⟨fun d d' hd h => ?_, fun d hd => ?_⟩
  · obtain ⟨table, ht⟩ := exists_routes hr d rootPath
    obtain ⟨table', ht'⟩ := exists_routes hr d' rootPath
    refine ⟨table, table', ht, ht',
      (routes_eq_cut h ht ht').trans (List.filter_congr fun x _ => ?_)⟩
    exact decide_eq_decide.2 (by omega)
  · obtain ⟨table, ht⟩ := exists_routes hr (allEdges r).length rootPath
    obtain ⟨table', ht'⟩ := exists_routes hr d rootPath
    have hcut := routes_eq_cut hd ht ht'
    rw [Int.toNat_natCast, cut_eq_self fun x hx => nesting_le_of_mem_routes ht' hx] at hcut
    rw [ht, ht', show table = table' from congrArg RouteTable.mk hcut]

/-- Threads have two edges: the routes of depth seven are the eleven of depth two, and the seven of
depth one are among them. -/
theorem routes_of_depth_threads :
    Closed ⟨[threadType]⟩ ∧ routes ⟨[threadType]⟩ 7 "/root" = routes ⟨[threadType]⟩ 2 "/root" ∧
      ∃ table table', routes ⟨[threadType]⟩ 1 "/root" = .ok table ∧
        routes ⟨[threadType]⟩ 2 "/root" = .ok table' ∧ table.routes.length = 7 ∧
        table'.routes.length = 11 ∧
        table.routes = table'.routes.filter fun x => (x.nesting : Int) ≤ 1 := by
  have hr : Closed ⟨[threadType]⟩ := by
    intro t ht target htarget
    obtain rfl := List.mem_singleton.1 ht
    have htargets : ∀ x ∈ targets threadType, x = .named "Thread" := by decide
    obtain rfl := htargets target htarget
    exact ⟨threadType, rfl⟩
  obtain ⟨hcut, hsame⟩ := routes_of_depth hr "/root"
  obtain ⟨table, table', ht, ht', h⟩ := hcut 1 2 (by decide) (by decide)
  have hone :
      ((routes ⟨[threadType]⟩ 1 "/root").map fun t => t.routes.length).toOption = some 7 := by
    decide +kernel
  have htwo :
      ((routes ⟨[threadType]⟩ 2 "/root").map fun t => t.routes.length).toOption = some 11 := by
    decide +kernel
  rw [ht] at hone
  rw [ht'] at htwo
  exact ⟨hr, hsame 7 (by decide), table, table', ht, ht', Option.some.inj hone,
    Option.some.inj htwo, h⟩

end Tree

end Hypermedia
