import Hypermedia.Proofs.Api.Filled
import Hypermedia.Proofs.Occurrences
import Hypermedia.Proofs.Route.Nesting
import Hypermedia.Proofs.Schema.Registering

/-!
# Distinct routes

A route is found by its pattern as it is spelled, so a table is only of use if no two routes are
spelled alike (`RouteTable.IsKeyed`). Where no plural name and no name of a branch has a slash,
this is so exactly if no two branches of one type that routes lead through have one name, and the
path of the root is that of no other route (`Tree.isKeyed_iff`). Registering sees to neither: a
relationship and a finder of one type may have one name (`Tree.not_isKeyed_books`).
-/

namespace Hypermedia

/-! ## Keys of tables -/

/-- No two routes are spelled alike, so none is served under the name of another, there are as many
routes as spellings, and every route is found by its spelling. -/
structure RouteTable.IsKeyed (t : RouteTable) : Prop where
  spellings : (t.routes.map Route.spelling).Nodup
  endpoints : (t.routes.map Route.endpoint).Nodup
  count : t.routes.length = t.spellings.length
  found : ∀ x ∈ t.routes, t.find? x.spelling = some x

/-- Of two texts that go on after a separator the parts before it are equal. -/
theorem append_sep_inj {α : Type} {c : α} {a b u v : List α} (ha : c ∉ a) (hb : c ∉ b)
    (h : a ++ c :: u = b ++ c :: v) : a = b ∧ u = v := by
  induction a generalizing b with
  | nil =>
    cases b with
    | nil => exact ⟨rfl, (List.cons.inj h).2⟩
    | cons y b => exact absurd ((List.cons.inj h).1 ▸ List.mem_cons_self) hb
  | cons x a ih =>
    cases b with
    | nil => exact absurd ((List.cons.inj h).1 ▸ List.mem_cons_self) ha
    | cons y b =>
      obtain ⟨rfl, hrest⟩ := List.cons.inj h
      have htails := ih (fun h => ha (List.mem_cons_of_mem _ h))
        (fun h => hb (List.mem_cons_of_mem _ h)) hrest
      exact ⟨congrArg (x :: ·) htails.1, htails.2⟩

theorem RouteKind.colon_notMem_name (k : RouteKind) : ':' ∉ k.name.toList := by
  cases k <;> decide

/-- The name of a route tells its spelling. -/
theorem Route.spelling_eq_of_endpoint {x y : Route} (h : x.endpoint = y.endpoint) :
    x.spelling = y.spelling := by
  have hchars := congrArg String.toList h
  simp only [endpoint, String.toList_append, toString, List.append_assoc,
    List.append_cancel_left_eq] at hchars
  exact String.toList_inj.1
    (append_sep_inj x.kind.colon_notMem_name y.kind.colon_notMem_name hchars).2

theorem RouteTable.isKeyed_of_nodup {t : RouteTable} (h : (t.routes.map Route.spelling).Nodup) :
    t.IsKeyed := by
  refine ⟨h, ?_, ?_, fun x hx => ?_⟩
  · refine (List.Nodup.of_map _ h).map_on fun x hx y hy hxy => ?_
    exact List.inj_on_of_nodup_map h hx hy (Route.spelling_eq_of_endpoint hxy)
  · rw [spellings, eraseDups_of_nodup h, List.length_map]
  · have hreverse : (t.routes.reverse.map Route.spelling).Nodup := by
      rwa [List.map_reverse, List.nodup_reverse]
    exact (find?_key_eq_some hreverse).2 ⟨List.mem_reverse.2 hx, rfl⟩

/-! ## Texts that go on with a slash -/

/-- The text goes on after the first one, if at all, with a slash. -/
def GoesOn (s w : List Char) : Prop := ∃ rest, w = s ++ rest ∧ ∀ c ∈ rest.head?, c = '/'

theorem GoesOn.refl (s : List Char) : GoesOn s s := ⟨[], (List.append_nil s).symm, nofun⟩

theorem GoesOn.trans_slash {s w rest : List Char} (h : GoesOn (s ++ '/' :: rest) w) :
    GoesOn s w := by
  obtain ⟨rest', rfl, -⟩ := h
  exact ⟨'/' :: rest ++ rest', by simp, fun c hc => by simpa using hc.symm⟩

/-- What goes on after a longer text is not the text itself. -/
theorem GoesOn.ne {s w rest : List Char} (h : GoesOn (s ++ '/' :: rest) w) : w ≠ s := by
  obtain ⟨rest', rfl, -⟩ := h
  simp

/-- A text goes on after one name only. -/
theorem GoesOn.name_eq {s a b w : List Char} (ha : '/' ∉ a) (hb : '/' ∉ b)
    (hw : GoesOn (s ++ '/' :: a) w) (hw' : GoesOn (s ++ '/' :: b) w) : a = b := by
  obtain ⟨u, rfl, hu⟩ := hw
  obtain ⟨v, heq, hv⟩ := hw'
  have hnames : a ++ u = b ++ v := by simpa using heq
  cases u with
  | nil =>
    cases v with
    | nil => simpa using hnames
    | cons c v =>
      obtain rfl := hv c rfl
      rw [List.append_nil] at hnames
      exact absurd (hnames ▸ List.mem_append_right b List.mem_cons_self) ha
  | cons c u =>
    obtain rfl := hu c rfl
    cases v with
    | nil =>
      rw [List.append_nil] at hnames
      exact absurd (hnames ▸ List.mem_append_right a List.mem_cons_self) hb
    | cons d v =>
      obtain rfl := hv d rfl
      exact (append_sep_inj ha hb hnames).1

theorem Pattern.toList_spelling_concat (p : Pattern) (x : PatternPiece) :
    (Pattern.spelling (p ++ [x])).toList = p.spelling.toList ++ x.spelling.toList := by
  simp [Pattern.spelling]

/-! ## Routes below a spot -/

/-- No plural name and no name of what leads on from a type has a slash. -/
structure Registry.IsSlashFree (r : Registry) : Prop where
  plural : ∀ t ∈ r.types, '/' ∉ t.pluralName.toList
  branch : ∀ t ∈ r.types, ∀ b ∈ Tree.branches t, '/' ∉ b.name.toList

namespace Tree

variable {r : Registry}

/-- The branches of a type that routes lead through if there are so many more steps to take. -/
def exposed (steps : Nat) (t : ResourceType) : List Branch :=
  (branches t).filter fun b => !b.isDeep || decide (0 < steps)

/-- No two branches of one type that routes lead through have one name. -/
def NamesApart (r : Registry) (steps : Nat) : Prop :=
  ∀ t ∈ r.types, ((exposed steps t).map Branch.name).Nodup

theorem nodup_exposed_iff {steps : Nat} {t : ResourceType} :
    ((exposed steps t).map Branch.name).Nodup ↔
      (branches t).Pairwise fun a b => (a.isDeep = true → 0 < steps) →
        (b.isDeep = true → 0 < steps) → a.name ≠ b.name := by
  have hexposed : ∀ b : Branch, (!b.isDeep || decide (0 < steps)) = true ↔
      (b.isDeep = true → 0 < steps) := fun b => by cases b.isDeep <;> simp
  rw [List.Nodup, List.pairwise_map, exposed, List.pairwise_filter]
  simp only [hexposed]

theorem NamesApart.mono {n m : Nat} (h : NamesApart r m) (hnm : n ≤ m) : NamesApart r n :=
  fun t ht => nodup_exposed_iff.2 <| (nodup_exposed_iff.1 (h t ht)).imp fun hab ha hb =>
    hab (fun h => Nat.lt_of_lt_of_le (ha h) hnm) fun h => Nat.lt_of_lt_of_le (hb h) hnm

namespace Spot

/-- The spelling of the pattern of a spot. -/
abbrev chars (p : Spot) : List Char := p.pattern.spelling.toList

/-- The spelling of the pattern of the members of a spot. -/
abbrev entityChars (p : Spot) : List Char := p.entityPattern.spelling.toList

theorem entityChars_eq (p : Spot) : ∃ rest, p.entityChars = p.chars ++ '/' :: rest := by
  refine ⟨('<' :: "rid:".toList) ++ p.scope.idParam.toList ++ ['>'], ?_⟩
  rw [entityChars, entityPattern, Pattern.toList_spelling_concat]
  simp [PatternPiece.spelling, toString]

theorem branchChars_eq (p : Spot) (name : String) :
    (p.branchPattern name).spelling.toList = p.entityChars ++ '/' :: name.toList := by
  rw [branchPattern, Pattern.toList_spelling_concat, PatternPiece.spelling, Pattern.toList_name]

end Spot

/-- The routes below a spot go on after its pattern. -/
theorem goesOn_of_mem_below {n : Nat} {p : Spot} {visited : List Edge} {x : Route}
    (hv : visited.length = p.params.length)
    (hx : x ∈ below r n p.scope p.pattern p.params visited)
    (hbranch : ∀ b, x ∈ branchRoutes r (deeperRoutes r p visited n) p b →
      GoesOn (p.entityChars ++ '/' :: b.name.toList) x.spelling.toList) :
    GoesOn p.chars x.spelling.toList := by
  obtain ⟨rest, hrest⟩ := p.entityChars_eq
  rw [below_eq n p hv] at hx
  rcases List.mem_append.1 hx with hx | hx
  · simp only [ownRoutes, List.mem_cons, List.not_mem_nil, or_false] at hx
    rcases hx with rfl | rfl
    · exact GoesOn.refl _
    · exact (hrest ▸ GoesOn.refl p.entityChars : GoesOn (p.chars ++ '/' :: rest) _).trans_slash
  · obtain ⟨b, -, hx⟩ := List.mem_flatMap.1 hx
    exact (hrest ▸ (hbranch b hx).trans_slash).trans_slash

/-- The routes that a branch of a spot adds go on after its name. -/
theorem goesOn_of_mem_branchRoutes {n : Nat} {p : Spot} {visited : List Edge} {b : Branch}
    {x : Route} (hv : visited.length = p.params.length)
    (hx : x ∈ branchRoutes r (deeperRoutes r p visited n) p b) :
    GoesOn (p.entityChars ++ '/' :: b.name.toList) x.spelling.toList := by
  induction n generalizing p visited b with
  | zero =>
    obtain ⟨rel, rfl, -, rfl⟩ | ⟨-, t, hx⟩ := mem_branchRoutes hx
    · exact p.branchChars_eq rel.name ▸ GoesOn.refl _
    · cases hx
  | succ n ih =>
    obtain ⟨rel, rfl, -, rfl⟩ | ⟨-, t, hx⟩ := mem_branchRoutes hx
    · exact p.branchChars_eq rel.name ▸ GoesOn.refl _
    · simp only [deeperRoutes] at hx
      split at hx
      · cases hx
      have hv' : (visited ++ [(p.scope.memberType.name, b.name)]).length =
          (p.advance ⟨0, b, t⟩).params.length := by simp [Spot.advance, hv]
      have hbelow := goesOn_of_mem_below hv' hx fun b' hx' => ih hv' hx'
      rwa [Spot.chars, Spot.advance, p.branchChars_eq] at hbelow

/-- The spellings of the routes that a branch of a spot adds. -/
abbrev branchSpellings (r : Registry) (n : Nat) (p : Spot) (visited : List Edge) (b : Branch) :
    List String :=
  (branchRoutes r (deeperRoutes r p visited n) p b).map Route.spelling

/-- The routes below a spot are spelled differently if those of its branches are. -/
theorem nodup_below_iff {n : Nat} {p : Spot} {visited : List Edge}
    (hv : visited.length = p.params.length) :
    ((below r n p.scope p.pattern p.params visited).map Route.spelling).Nodup ↔
      (∀ b ∈ branches p.scope.memberType, (branchSpellings r n p visited b).Nodup) ∧
        (branches p.scope.memberType).Pairwise
          (Function.onFun List.Disjoint (branchSpellings r n p visited)) := by
  obtain ⟨rest, hrest⟩ := p.entityChars_eq
  have hown : ((ownRoutes p.scope p.pattern).map Route.spelling).Nodup := by
    refine List.nodup_cons.2 ⟨fun h => ?_, List.nodup_singleton _⟩
    have heq := congrArg String.toList (List.mem_singleton.1 h)
    exact (hrest ▸ GoesOn.refl p.entityChars : GoesOn (p.chars ++ '/' :: rest) _).ne heq.symm
  have hapart : ∀ w ∈ (ownRoutes p.scope p.pattern).map Route.spelling,
      ∀ w' ∈ (branches p.scope.memberType).flatMap (branchSpellings r n p visited), w ≠ w' := by
    rintro w hw w' hw' rfl
    obtain ⟨b, -, hb⟩ := List.mem_flatMap.1 hw'
    obtain ⟨x, hx, rfl⟩ := List.mem_map.1 hb
    have hbelow := goesOn_of_mem_branchRoutes hv hx
    rcases List.mem_cons.1 hw with heq | hw
    · exact (hrest ▸ hbelow.trans_slash : GoesOn (p.chars ++ '/' :: rest) _).ne
        (congrArg String.toList heq)
    · exact hbelow.ne (congrArg String.toList (List.mem_singleton.1 hw))
  rw [below_eq n p hv, List.map_append, List.map_flatMap, List.nodup_append, List.nodup_flatMap]
  exact ⟨fun h => h.2.1, fun h => ⟨hown, h, hapart⟩⟩

/-- Branches whose names are apart have no spelling in common. -/
theorem disjoint_branchSpellings {n : Nat} (hslash : r.IsSlashFree) (hapart : NamesApart r n)
    {p : Spot} {visited : List Edge} (hp : p.scope.memberType ∈ r.types)
    (hv : visited.length = p.params.length) :
    (branches p.scope.memberType).Pairwise
      (Function.onFun List.Disjoint (branchSpellings r n p visited)) := by
  have hexposed : ∀ {b x}, x ∈ branchRoutes r (deeperRoutes r p visited n) p b →
      b.isDeep = true → 0 < n := by
    intro b x hx hdeep
    rcases mem_branchRoutes hx with ⟨rel, rfl, hone, -⟩ | ⟨-, t, hx⟩
    · exact absurd hdeep (by simpa [Branch.isDeep] using hone)
    · cases n with
      | zero => cases hx
      | succ n => exact Nat.succ_pos n
  refine (nodup_exposed_iff.1 (hapart _ hp)).imp_of_mem fun {a b} ha hb hab w hwa hwb => ?_
  obtain ⟨x, hx, rfl⟩ := List.mem_map.1 hwa
  obtain ⟨y, hy, hxy⟩ := List.mem_map.1 hwb
  refine hab (hexposed hx) (hexposed hy) (String.toList_inj.1 ?_)
  exact GoesOn.name_eq (hslash.branch _ hp a ha) (hslash.branch _ hp b hb)
    (goesOn_of_mem_branchRoutes hv hx) (hxy ▸ goesOn_of_mem_branchRoutes hv hy)

/-- Where names are apart, the routes below a spot are spelled differently. -/
theorem nodup_below {n : Nat} (hslash : r.IsSlashFree) (hapart : NamesApart r n) {p : Spot}
    {visited : List Edge} (hp : p.scope.memberType ∈ r.types)
    (hv : visited.length = p.params.length) :
    ((below r n p.scope p.pattern p.params visited).map Route.spelling).Nodup := by
  induction n generalizing p visited with
  | zero =>
    refine (nodup_below_iff hv).2 ⟨fun b _ => ?_, disjoint_branchSpellings hslash hapart hp hv⟩
    unfold branchSpellings branchRoutes deeperRoutes
    split
    · exact List.nodup_nil
    · split
      · exact List.nodup_nil
      · exact List.nodup_singleton _
    · exact List.nodup_nil
  | succ n ih =>
    refine (nodup_below_iff hv).2 ⟨fun b _ => ?_, disjoint_branchSpellings hslash hapart hp hv⟩
    have hdeeper : ∀ b t, t ∈ r.types →
        ((deeperRoutes r p visited (n + 1) b t).map Route.spelling).Nodup := by
      intro b t ht
      simp only [deeperRoutes]
      split
      · exact List.nodup_nil
      · exact ih (hapart.mono (Nat.le_succ n)) ((memberType_childScope _ t _ b).symm ▸ ht)
          (by simp [Spot.advance, hv])
    unfold branchSpellings branchRoutes
    split
    · exact List.nodup_nil
    · next t rel hresolve =>
      split
      · exact hdeeper _ _ (Registry.resolve_mem hresolve)
      · exact List.nodup_singleton _
    · next t f hresolve => exact hdeeper _ _ (Registry.resolve_mem hresolve)

/-- Every branch of a type that routes lead through has a route that is spelled with its name. -/
theorem mem_branchSpellings (hr : Closed r) {n : Nat} {t : ResourceType} (ht : t ∈ r.types)
    {b : Branch} (hb : b ∈ branches t) (hdeep : b.isDeep = true → 0 < n) :
    ((Spot.ofType t).branchPattern b.name).spelling ∈ branchSpellings r n (.ofType t) [] b := by
  obtain ⟨t', hresolve⟩ := hr t ht b.target (target_mem_targets hb)
  have hhead : b.isDeep = true → ∃ x ∈ deeperRoutes r (.ofType t) [] n b t',
      x.spelling = ((Spot.ofType t).branchPattern b.name).spelling := by
    intro hmany
    obtain ⟨n, rfl⟩ := Nat.exists_eq_succ_of_ne_zero (Nat.pos_iff_ne_zero.1 (hdeep hmany))
    simp only [deeperRoutes, List.contains_nil, Bool.false_eq_true, if_false]
    rw [below_eq n ((Spot.ofType t).advance ⟨0, b, t'⟩) rfl]
    exact ⟨_, List.mem_append_left _ List.mem_cons_self, rfl⟩
  unfold branchSpellings branchRoutes
  rw [hresolve]
  cases b with
  | finder f =>
    obtain ⟨x, hx, hspelled⟩ := hhead rfl
    exact List.mem_map.2 ⟨x, hx, hspelled⟩
  | relationship rel =>
    dsimp only
    split
    · next hmany =>
      obtain ⟨x, hx, hspelled⟩ := hhead hmany
      exact List.mem_map.2 ⟨x, hx, hspelled⟩
    · exact List.mem_map.2 ⟨_, List.mem_singleton_self _, rfl⟩

/-- The routes of all types are spelled differently only where names are apart. -/
theorem namesApart_of_nodup (hr : Closed r) {n : Nat}
    (h : ∀ t ∈ r.types, ((below r n (Spot.ofType t).scope (Spot.ofType t).pattern [] []).map
      Route.spelling).Nodup) : NamesApart r n := by
  intro t ht
  have hdisjoint := ((nodup_below_iff (p := .ofType t) rfl).1 (h t ht)).2
  refine nodup_exposed_iff.2 (hdisjoint.imp_of_mem fun {a b} ha hb hab hdeepA hdeepB hname => ?_)
  have hspelled := mem_branchSpellings hr ht ha hdeepA
  rw [hname] at hspelled
  exact hab hspelled (mem_branchSpellings hr ht hb hdeepB)

/-! ## Tables of registries -/

theorem nodup_pluralName (h : r.IsBuilt) : (r.types.map ResourceType.pluralName).Nodup := by
  induction h with
  | empty => exact List.nodup_nil
  | @register r _ t ih =>
    rcases r.register_cases t with ⟨f, hkept⟩ | ⟨t', hprepare, hadded, -⟩
    · rwa [hkept]
    · rw [hadded, List.map_append, List.nodup_append]
      refine ⟨ih, List.nodup_singleton _, ?_⟩
      rintro _ hold _ hnew heq
      obtain ⟨old, hmem, rfl⟩ := List.mem_map.1 hold
      obtain rfl := List.mem_singleton.1 hnew
      obtain ⟨hsome, hsome', hne⟩ := (Registry.admits_of_prepare hprepare).1.plural old hmem
      obtain ⟨u, hu⟩ := Option.isSome_iff_exists.1 hsome
      obtain ⟨v, hv⟩ := Option.isSome_iff_exists.1 hsome'
      simp only [ResourceType.pluralName, hu, hv, Option.getD_some] at heq
      exact hne (by rw [hu, hv, heq])

theorem spelling_rootRoute (path : String) : (rootRoute path).spelling = path := by
  simp [rootRoute, Route.spelling, Pattern.spelling, PatternPiece.spelling]

theorem goesOn_of_mem_ofType {maxDepth : Int} {t : ResourceType} {x : Route}
    (hx : x ∈ ofType r maxDepth t) :
    GoesOn ([] ++ '/' :: t.pluralName.toList) x.spelling.toList := by
  have hspot := goesOn_of_mem_below (p := .ofType t) rfl hx fun b hb =>
    goesOn_of_mem_branchRoutes rfl hb
  rwa [Spot.chars, show (Spot.ofType t).pattern = [] ++ [.text s!"/{t.pluralName}"] from rfl,
    Pattern.toList_spelling_concat, PatternPiece.spelling, Pattern.toList_name] at hspot

/-- Types with different plural names have no spelling in common. -/
theorem disjoint_ofType (hbuilt : r.IsBuilt) (hslash : r.IsSlashFree) (maxDepth : Int) :
    r.types.Pairwise
      (Function.onFun List.Disjoint fun t => (ofType r maxDepth t).map Route.spelling) := by
  have hplural := List.pairwise_map.1 (nodup_pluralName hbuilt)
  refine hplural.imp_of_mem fun {t t'} ht ht' hne w hw hw' => ?_
  obtain ⟨x, hx, rfl⟩ := List.mem_map.1 hw
  obtain ⟨y, hy, hxy⟩ := List.mem_map.1 hw'
  refine hne (String.toList_inj.1 ?_)
  exact GoesOn.name_eq (hslash.plural t ht) (hslash.plural t' ht') (goesOn_of_mem_ofType hx)
    (hxy ▸ goesOn_of_mem_ofType hy)

/-- A path of one part is that of no route if this part is not the plural name of a type. -/
theorem spelling_ne_of_pluralName (hslash : r.IsSlashFree) {rootPath : String} {name : List Char}
    (hroot : rootPath.toList = '/' :: name) (hname : '/' ∉ name)
    (hplural : ∀ t ∈ r.types, t.pluralName.toList ≠ name) (maxDepth : Int) :
    ∀ t ∈ r.types, ∀ x ∈ ofType r maxDepth t, x.spelling ≠ rootPath := by
  intro t ht x hx heq
  have hon : GoesOn ([] ++ '/' :: name) x.spelling.toList := by
    rw [heq, hroot]
    exact GoesOn.refl _
  exact hplural t ht (GoesOn.name_eq (hslash.plural t ht) hname (goesOn_of_mem_ofType hx) hon)

/-- A table of routes of a registry is keyed by the spellings exactly if names are apart and no
other route is spelled like the root. -/
theorem isKeyed_iff (hbuilt : r.IsBuilt) (hslash : r.IsSlashFree) {maxDepth : Int}
    {rootPath : String} {table : RouteTable} (h : routes r maxDepth rootPath = .ok table) :
    table.IsKeyed ↔ NamesApart r maxDepth.toNat ∧
      ∀ t ∈ r.types, ∀ x ∈ ofType r maxDepth t, x.spelling ≠ rootPath := by
  rcases routes_cases r maxDepth rootPath with ⟨hr, he⟩ | ⟨-, name, he⟩
  · obtain rfl := Except.ok.inj (he.symm.trans h)
    have hkeyed : ∀ {table : RouteTable},
        table.IsKeyed ↔ (table.routes.map Route.spelling).Nodup :=
      ⟨RouteTable.IsKeyed.spellings, RouteTable.isKeyed_of_nodup⟩
    rw [hkeyed, List.map_cons, List.nodup_cons, spelling_rootRoute, List.map_flatMap,
      List.nodup_flatMap]
    constructor
    · rintro ⟨hroot, hnodup, -⟩
      refine ⟨namesApart_of_nodup hr hnodup, fun t ht x hx heq => hroot ?_⟩
      exact List.mem_flatMap.2 ⟨t, ht, List.mem_map.2 ⟨x, hx, heq⟩⟩
    · rintro ⟨hapart, hroot⟩
      refine ⟨fun hmem => ?_, fun t ht => ?_, disjoint_ofType hbuilt hslash maxDepth⟩
      · obtain ⟨t, ht, hmem⟩ := List.mem_flatMap.1 hmem
        obtain ⟨x, hx, heq⟩ := List.mem_map.1 hmem
        exact hroot t ht x hx heq
      · exact nodup_below (p := .ofType t) hslash hapart ht rfl
  · rw [he] at h
    cases h

/-- Authors, who have books by a relationship and by a finder of one name. -/
def twiceAuthor : ResourceType where
  name := "Author"
  relationships := [{ name := "books", target := .named "Book" }]
  finders := [{ name := "books", target := .named "Book" }]

/-- Authors and books, registered one after the other. -/
def twiceRegistry : Registry :=
  ((Registry.empty.register twiceAuthor).1.register { name := "Book" }).1

theorem types_twiceRegistry : twiceRegistry.types = [twiceAuthor, { name := "Book" }] := by
  rfl

/-- Authors, who have books by a relationship and drafts by a finder. -/
def apartAuthor : ResourceType where
  name := "Author"
  relationships := [{ name := "books", target := .named "Book" }]
  finders := [{ name := "drafts", target := .named "Book" }]

/-- Books of one author. -/
def authoredBook : ResourceType where
  name := "Book"
  relationships := [{ name := "author", target := .named "Author", cardinality := .one }]

/-- Authors and books with names that are apart. -/
def apartRegistry : Registry :=
  ((Registry.empty.register apartAuthor).1.register authoredBook).1

theorem types_apartRegistry : apartRegistry.types = [apartAuthor, authoredBook] := by
  rfl

/-- Where the names are apart the nested collections are keyed too, and otherwise the two branches
have no routes as long as no collection is nested in another one. -/
theorem isKeyed_iff_books :
    (apartRegistry.IsBuilt ∧ apartRegistry.IsSlashFree ∧
      ∃ table, routes apartRegistry 2 "/root" = .ok table ∧ table.IsKeyed ∧
        table.routes.length = 12) ∧
    twiceRegistry.IsBuilt ∧ twiceRegistry.IsSlashFree ∧
      ∃ table, routes twiceRegistry 0 "/root" = .ok table ∧ table.IsKeyed := by
  have hbuilt : apartRegistry.IsBuilt := .register (.register .empty apartAuthor) authoredBook
  have hbuilt' : twiceRegistry.IsBuilt :=
    .register (.register .empty twiceAuthor) { name := "Book" }
  have hslash : apartRegistry.IsSlashFree := by
    constructor <;> rw [types_apartRegistry] <;> decide
  have hslash' : twiceRegistry.IsSlashFree := by
    constructor <;> rw [types_twiceRegistry] <;> decide
  have hroot : "/root".toList = '/' :: "root".toList := by decide
  refine ⟨⟨hbuilt, hslash, _, rfl, (isKeyed_iff hbuilt hslash rfl).2 ⟨?_, ?_⟩, by decide +kernel⟩,
    hbuilt', hslash', _, rfl, (isKeyed_iff hbuilt' hslash' rfl).2 ⟨?_, ?_⟩⟩
  · unfold NamesApart
    rw [types_apartRegistry]
    decide
  · refine spelling_ne_of_pluralName hslash hroot (by decide) ?_ _
    rw [types_apartRegistry]
    decide
  · unfold NamesApart
    rw [types_twiceRegistry]
    decide
  · refine spelling_ne_of_pluralName hslash' hroot (by decide) ?_ _
    rw [types_twiceRegistry]
    decide

/-- Both types are registered, and of the routes of one relationship and one finder two are spelled
like two others. -/
theorem not_isKeyed_books :
    (Registry.empty.register twiceAuthor).2.toOption.isSome = true ∧
      ((Registry.empty.register twiceAuthor).1.register { name := "Book" }).2.toOption.isSome =
        true ∧
      ∃ table, routes twiceRegistry 1 "/root" = .ok table ∧ table.routes.length = 9 ∧
        table.spellings.length = 7 ∧ ¬table.IsKeyed := by
  obtain ⟨table, htable, hroutes, hspellings⟩ : ∃ table,
      routes twiceRegistry 1 "/root" = .ok table ∧ table.routes.length = 9 ∧
        table.spellings.length = 7 :=
    ⟨_, rfl, by decide +kernel, by decide +kernel⟩
  refine ⟨rfl, rfl, table, htable, hroutes, hspellings, fun h => absurd h.count ?_⟩
  rw [hroutes, hspellings]
  decide

end Tree

end Hypermedia
