import Hypermedia.Proofs.Api.Filled
import Hypermedia.Proofs.Route.Resolving
import Mathlib.Data.List.Induction
import Mathlib.Data.List.Pairwise

/-!
# Addresses are unambiguous

Two routes of a table whose patterns have the same names are one route where no two patterns are
spelled alike, whatever their parameters are called (`Tree.eq_of_shape`): ways whose spots have the
same names are one way, by induction on their steps. So where names read like ids every path is
the address of at most one route, with one choice of ids and format, and reading the address among
the places of the table gives them back (`Tree.addresses_unambiguous`).
-/

namespace Hypermedia

/-! ## Addresses of routes -/

namespace Route

/-- The texts can stand for the ids and the format in an address of a route. -/
structure Accepts (x : Route) (ids : List String) (format : Option String) : Prop where
  filled : x.pattern.IsFilledBy ids
  format : ∀ f ∈ format, IsExt f

/-- The address of a route with ids and a format. -/
def address (x : Route) (ids : List String) (format : Option String) : String :=
  x.pattern.fill ids ++ Naming.formatSuffix format

/-- A path is the address of a route with these ids and this format. -/
def Reads (x : Route) (path : String) (ids : List String) (format : Option String) : Prop :=
  x.Accepts ids format ∧ path = x.address ids format

/-- The place of a route, without or with the suffix of a format. -/
def place (x : Route) (hasSuffix : Bool) : Place Route :=
  { pattern := x.pattern, hasSuffix, methods := x.methods, target := x }

theorem toList_address (x : Route) (ids : List String) (format : Option String) :
    (x.address ids format).toList =
      (x.pattern.fill ids).toList ++ (Naming.formatSuffix format).toList := String.toList_append

end Route

/-- The places of a table: each route without and with the suffix of a format. -/
def RouteTable.places (table : RouteTable) : List (Place Route) :=
  table.routes.flatMap fun x => [x.place false, x.place true]

/-- The names of a registry in addresses read like ids: plural names, and those of the readable
relationships and of the finders. -/
structure Registry.NamesReadable (r : Registry) : Prop where
  plural : ∀ t ∈ r.types, IsId t.pluralName.toList
  branch : ∀ t ∈ r.types, ∀ b ∈ Tree.branches t, IsId b.name.toList

namespace Tree

variable {r : Registry}

/-! ## Patterns of routes -/

/-- The pattern of a spot can go on with an id, in turn with its names. -/
def Spot.GoesOn (p : Spot) : Prop :=
  ∀ q, Pattern.Alternates false q → Pattern.Alternates true (p.pattern ++ q)

theorem Spot.GoesOn.branch {p : Spot} (hp : p.GoesOn) {name : String} (hname : IsId name.toList)
    {q : Pattern} (hq : Pattern.Alternates false q) :
    Pattern.Alternates true (p.branchPattern name ++ q) := by
  simpa [Spot.branchPattern, Spot.entityPattern] using hp _ (.id (.name hname hq))

theorem goesOn_foldl (hr : r.NamesReadable) {xs : List Step} : ∀ {p : Spot},
    p.scope.memberType ∈ r.types → p.GoesOn → Follows r p.scope.memberType xs →
    (xs.foldl Spot.advance p).GoesOn ∧ (xs.foldl Spot.advance p).scope.memberType ∈ r.types := by
  induction xs with
  | nil => exact fun ht hp _ => ⟨hp, ht⟩
  | cons x xs ih =>
    intro p ht hp hfollows
    obtain ⟨hplace, -, htarget, hrest⟩ := hfollows
    have hname := hr.branch _ ht _ (List.mem_of_getElem? hplace)
    have htype : (p.advance x).scope.memberType = x.target := memberType_childScope _ _ _ _
    exact ih (htype ▸ Registry.resolve_mem htarget) (fun q hq => hp.branch hname hq) (htype ▸ hrest)

theorem Way.IsIn.goesOn {maxDepth : Int} (hr : r.NamesReadable) {w : Way}
    (hw : w.IsIn r maxDepth) : w.spot.GoesOn ∧ w.spot.scope.memberType ∈ r.types := by
  have hstart := List.mem_of_getElem? hw.start
  exact goesOn_foldl hr hstart (fun q hq => .name (hr.plural _ hstart) hq) hw.follows

/-- What the pattern of a route is: one text, or that of the members at the spot of a way, or that
of what a branch of the members leads to. -/
inductive IsPatternOf (r : Registry) (maxDepth : Int) : Pattern → Prop
  | text (t : String) : IsPatternOf r maxDepth [.text t]
  | entity (w : Way) (hw : w.IsIn r maxDepth) : IsPatternOf r maxDepth w.spot.entityPattern
  | branch (w : Way) (hw : w.IsIn r maxDepth) (name : String) :
      IsPatternOf r maxDepth (w.spot.branchPattern name)

/-- Without its last step a way is a way. -/
theorem Way.IsIn.of_concat {maxDepth : Int} {i : Nat} {t : ResourceType} {xs : List Step}
    {x : Step} (h : (⟨i, t, xs ++ [x]⟩ : Way).IsIn r maxDepth) :
    (⟨i, t, xs⟩ : Way).IsIn r maxDepth := by
  have hfollows : ∀ {xs : List Step} {t : ResourceType}, Follows r t (xs ++ [x]) →
      Follows r t xs := by
    intro xs
    induction xs with
    | nil => exact fun _ => trivial
    | cons y ys ih => exact fun h => ⟨h.1, h.2.1, h.2.2.1, ih h.2.2.2⟩
  have hedges : ∀ (xs : List Step) (t : ResourceType), edges t xs <+: edges t (xs ++ [x]) := by
    intro xs
    induction xs with
    | nil => exact fun _ => List.nil_prefix
    | cons y ys ih => exact fun t => (List.prefix_cons_inj _).2 (ih y.target)
  have hlength : xs.length ≤ (xs ++ [x]).length := by simp
  exact ⟨h.start, hfollows h.follows, h.edges_nodup.sublist (hedges xs t).sublist,
    Int.le_trans (Int.ofNat_le.2 hlength) h.length_le⟩

theorem Way.spot_concat (i : Nat) (t : ResourceType) (xs : List Step) (x : Step) :
    (⟨i, t, xs ++ [x]⟩ : Way).spot = (⟨i, t, xs⟩ : Way).spot.advance x := by
  rw [Way.spot, Way.spot, List.foldl_append]
  rfl

variable {maxDepth : Int} {rootPath : String} {table : RouteTable}

theorem Way.isPatternOf (w : Way) (hw : w.IsIn r maxDepth) :
    IsPatternOf r maxDepth w.spot.pattern := by
  obtain ⟨i, t, steps⟩ := w
  rcases List.eq_nil_or_concat steps with rfl | ⟨xs, x, rfl⟩
  · exact .text _
  · rw [List.concat_eq_append] at hw ⊢
    rw [Way.spot_concat]
    exact .branch _ hw.of_concat x.branch.name

theorem isPatternOf_of_mem_routes (h : routes r maxDepth rootPath = .ok table) {x : Route}
    (hx : x ∈ table.routes) : IsPatternOf r maxDepth x.pattern := by
  rcases (mem_routes h).1 hx with rfl | ⟨w, hw, hx⟩
  · exact .text rootPath
  rcases List.mem_append.1 hx with hx | hx
  · simp only [ownRoutes, List.mem_cons, List.not_mem_nil, or_false] at hx
    rcases hx with rfl | rfl
    · exact w.isPatternOf hw
    · exact .entity w hw
  · obtain ⟨rel, -, rfl⟩ := List.mem_map.1 hx
    exact .branch w hw rel.name

theorem Way.IsIn.alternates (hr : r.NamesReadable) {w : Way} (hw : w.IsIn r maxDepth) {x : Route}
    (hx : x ∈ w.spot.routes r) : x.pattern.Alternates true := by
  obtain ⟨hspot, ht⟩ := hw.goesOn hr
  rcases List.mem_append.1 hx with hx | hx
  · simp only [ownRoutes, List.mem_cons, List.not_mem_nil, or_false] at hx
    rcases hx with rfl | rfl
    · simpa using hspot [] (.nil _)
    · exact hspot _ (.id (.nil _))
  · obtain ⟨rel, hrel, rfl⟩ := List.mem_map.1 hx
    have hname := hr.branch _ ht (.relationship rel)
      (List.mem_append_left _ (List.mem_map_of_mem (List.mem_filter.1 hrel).1))
    simpa [Spot.singular, Branch.name] using hspot.branch hname (.nil _)

theorem alternates_of_mem_routes (h : routes r maxDepth rootPath = .ok table)
    (hr : r.NamesReadable) (hroot : ∃ name : String, IsId name.toList ∧ rootPath = s!"/{name}")
    {x : Route} (hx : x ∈ table.routes) : x.pattern.Alternates true := by
  rcases (mem_routes h).1 hx with rfl | ⟨w, hw, hx⟩
  · obtain ⟨name, hname, rfl⟩ := hroot
    exact .name hname (.nil _)
  · exact hw.alternates hr hx

/-! ## Names decide the route -/

theorem shape_branchPattern (p : Spot) (name : String) :
    (p.branchPattern name).shape = p.pattern.shape ++ [.id "", .text s!"/{name}"] := by
  simp [Spot.branchPattern, Spot.entityPattern, Pattern.shape, PatternPiece.unnamed]

theorem shape_entityPattern (p : Spot) :
    p.entityPattern.shape = p.pattern.shape ++ [.id ""] := by
  simp [Spot.entityPattern, Pattern.shape, PatternPiece.unnamed]

/-- What branches lead to has one pattern if the names are the same, if the spots that they start
from have one. -/
theorem Spot.branchPattern_eq {p p' : Spot} {name other : String}
    (hshape : (p.branchPattern name).shape = (p'.branchPattern other).shape)
    (hp : p.pattern.shape = p'.pattern.shape → p = p') :
    p.branchPattern name = p'.branchPattern other := by
  rw [shape_branchPattern, shape_branchPattern] at hshape
  obtain ⟨hbegin, hlast⟩ := List.append_inj' hshape rfl
  obtain rfl := hp hbegin
  have hname : (PatternPiece.text s!"/{name}") = .text s!"/{other}" := by simpa using hlast
  rw [Spot.branchPattern, Spot.branchPattern, hname]

section

variable (h : routes r maxDepth rootPath = .ok table)
  (hdistinct : (table.routes.map Route.spelling).Nodup)

include h hdistinct

/-- No two ways lead to one pattern: each of them has a route of the pattern. -/
theorem Way.eq_of_pattern {w w' : Way} (hw : w.IsIn r maxDepth) (hw' : w'.IsIn r maxDepth)
    (hpattern : w.spot.pattern = w'.spot.pattern) : w = w' := by
  rcases routes_cases r maxDepth rootPath with ⟨hclosed, heq⟩ | ⟨-, name, heq⟩
  · obtain rfl := Except.ok.inj (heq.symm.trans h)
    have hperm := ((flatMap_ofType_perm hclosed maxDepth).map Route.spelling).nodup_iff
    have hnodup := hperm.1 (List.nodup_cons.1 hdistinct).2
    rw [List.map_flatMap, List.nodup_flatMap] at hnodup
    by_contra hne
    have hsymm : Std.Symm (Function.onFun List.Disjoint fun w : Way =>
        (w.spot.routes r).map Route.spelling) := ⟨fun _ _ hab _ hb ha => hab ha hb⟩
    have hdisjoint := hnodup.2.forall (mem_ways.2 hw) (mem_ways.2 hw') hne
    obtain ⟨x, hx, -, hxp, -⟩ := exists_collection_route r w.spot
    obtain ⟨y, hy, -, hyp, -⟩ := exists_collection_route r w'.spot
    refine hdisjoint (List.mem_map_of_mem hx) (List.mem_map.2 ⟨y, hy, ?_⟩)
    rw [Route.spelling, Route.spelling, hxp, hyp, hpattern]
  · rw [heq] at h
    cases h

/-- Ways to patterns with the same names are one way, whatever the parameters are called: without
their last steps they are one way by induction, so their last steps lead to one pattern. -/
theorem Way.eq_of_shape {w w' : Way} (hw : w.IsIn r maxDepth) (hw' : w'.IsIn r maxDepth)
    (hshape : w.spot.pattern.shape = w'.spot.pattern.shape) : w = w' := by
  refine Way.eq_of_pattern h hdistinct hw hw' ?_
  obtain ⟨i, t, xs⟩ := w
  obtain ⟨i', t', xs'⟩ := w'
  have hlength : ∀ (j : Nat) (u : ResourceType) (ys : List Step) (y : Step) (v : ResourceType),
      (Spot.ofType v).pattern.shape ≠ (⟨j, u, ys ++ [y]⟩ : Way).spot.pattern.shape := by
    intro j u ys y v heq
    rw [Way.spot_concat] at heq
    have hpieces := congrArg List.length (heq.trans (shape_branchPattern _ y.branch.name))
    simp [Spot.ofType, Pattern.shape] at hpieces
  induction xs using List.reverseRecOn generalizing xs' with
  | nil =>
    rcases List.eq_nil_or_concat xs' with rfl | ⟨ys, y, rfl⟩
    · exact hshape
    · rw [List.concat_eq_append] at hshape
      exact absurd hshape (hlength i' t' ys y t)
  | append_singleton xs x ih =>
    rcases List.eq_nil_or_concat xs' with rfl | ⟨ys, y, rfl⟩
    · exact absurd hshape.symm (hlength i t xs x t')
    · rw [List.concat_eq_append] at hw' hshape ⊢
      rw [Way.spot_concat, Way.spot_concat] at hshape ⊢
      refine Spot.branchPattern_eq hshape fun hbegin => ?_
      rw [Way.eq_of_pattern h hdistinct hw.of_concat hw'.of_concat
        (ih hw.of_concat ys hw'.of_concat hbegin)]

theorem IsPatternOf.eq_of_shape {p q : Pattern} (hp : IsPatternOf r maxDepth p)
    (hq : IsPatternOf r maxDepth q) (hshape : p.shape = q.shape) : p = q := by
  have hlast := congrArg List.getLast? hshape
  have hlength := congrArg List.length hshape
  cases hp with
  | text t =>
    cases hq with
    | text t' => exact hshape
    | entity w' hw' => simp [Spot.entityPattern, Pattern.shape, PatternPiece.unnamed] at hlast
    | branch w' hw' name' => simp [Spot.branchPattern, Spot.entityPattern, Pattern.shape] at hlength
  | entity w hw =>
    cases hq with
    | text t' => simp [Spot.entityPattern, Pattern.shape, PatternPiece.unnamed] at hlast
    | entity w' hw' =>
      rw [shape_entityPattern, shape_entityPattern] at hshape
      rw [Way.eq_of_shape h hdistinct hw hw' (List.append_cancel_right hshape)]
    | branch w' hw' name' => simp [shape_entityPattern, shape_branchPattern] at hlast
  | branch w hw name =>
    cases hq with
    | text t' => simp [Spot.branchPattern, Spot.entityPattern, Pattern.shape] at hlength
    | entity w' hw' => simp [shape_entityPattern, shape_branchPattern] at hlast
    | branch w' hw' name' =>
      exact Spot.branchPattern_eq hshape fun hbegin => by
        rw [Way.eq_of_shape h hdistinct hw hw' hbegin]

/-- Routes whose patterns have the same names are one route. -/
theorem eq_of_shape {x y : Route} (hx : x ∈ table.routes) (hy : y ∈ table.routes)
    (hshape : x.pattern.shape = y.pattern.shape) : x = y := by
  have hpattern := IsPatternOf.eq_of_shape h hdistinct (isPatternOf_of_mem_routes h hx)
    (isPatternOf_of_mem_routes h hy) hshape
  refine List.inj_on_of_nodup_map hdistinct hx hy ?_
  rw [Route.spelling, Route.spelling, hpattern]

end

/-! ## Paths and routes -/

theorem mem_places {p : Place Route} :
    p ∈ table.places ↔ ∃ x ∈ table.routes, ∃ hasSuffix, p = x.place hasSuffix := by
  simp [RouteTable.places, or_comm]

theorem nodup_places (hdistinct : (table.routes.map Route.spelling).Nodup) :
    table.places.Nodup := by
  rw [RouteTable.places, List.nodup_flatMap]
  refine ⟨fun x _ => by simp [Route.place], (List.Nodup.of_map _ hdistinct).imp ?_⟩
  intro x y hne p hx hy
  have htarget : ∀ {z : Route}, p ∈ [z.place false, z.place true] → p.target = z := by
    intro z hz
    simp only [List.mem_cons, List.not_mem_nil, or_false] at hz
    rcases hz with rfl | rfl <;> rfl
  exact hne ((htarget hx).symm.trans (htarget hy))

/-- No place of a table is tried twice. -/
theorem nodup_candidates (hdistinct : (table.routes.map Route.spelling).Nodup)
    (address : List Char) : (Place.candidates table.places address).Nodup := by
  rw [(Place.candidates_perm _ _).nodup_iff]
  refine (nodup_places hdistinct).filterMap fun p q y hp hq => ?_
  simp only [Option.mem_def, Option.map_eq_some_iff] at hp hq
  obtain ⟨a, -, hp⟩ := hp
  obtain ⟨b, -, hq⟩ := hq
  exact congrArg Prod.fst (hp.trans hq.symm)

section

variable (h : routes r maxDepth rootPath = .ok table)
  (hdistinct : (table.routes.map Route.spelling).Nodup) (hr : r.NamesReadable)
  (hroot : ∃ name : String, IsId name.toList ∧ rootPath = s!"/{name}")

include h hdistinct hr hroot

theorem eq_of_reads {path : String} {x y : Route} (hx : x ∈ table.routes) (hy : y ∈ table.routes)
    {ids ids' : List String} {format format' : Option String} (hreads : x.Reads path ids format)
    (hreads' : y.Reads path ids' format') : x = y ∧ ids = ids' ∧ format = format' := by
  obtain ⟨hids, rfl⟩ := hreads
  obtain ⟨hids', heq⟩ := hreads'
  have hchars := congrArg String.toList heq
  rw [Route.toList_address, Route.toList_address] at hchars
  obtain ⟨hshape, rfl, hsuffix⟩ := (alternates_of_mem_routes h hr hroot hx).eq_of_fill_append
    (alternates_of_mem_routes h hr hroot hy) hids.filled hids'.filled
    (isEnding_formatSuffix hids.format) (isEnding_formatSuffix hids'.format) hchars
  exact ⟨eq_of_shape h hdistinct hx hy hshape, rfl,
    formatSuffix_inj hids.format hids'.format hsuffix⟩

/-- The place of a route with the same suffix reads its address, and no other place does. -/
theorem mem_candidates_address {x : Route} (hx : x ∈ table.routes) {ids : List String}
    {format : Option String} (haccepts : x.Accepts ids format) (p : Place Route) (y : Match) :
    (p, y) ∈ Place.candidates table.places (x.address ids format).toList ↔
      p = x.place format.isSome ∧ y = { params := x.pattern.bindIds ids, suffix := format } := by
  have halternates := fun {y} => alternates_of_mem_routes (x := y) h hr hroot
  rw [Place.mem_candidates, mem_places, Route.toList_address]
  have hlast := (halternates hx).getLast?_fill_append haccepts.filled haccepts.format
  constructor
  · rintro ⟨⟨z, hz, hasSuffix, rfl⟩, hmatch⟩
    obtain ⟨ids', format', hfilled, hformat, hsuffix, haddress, rfl⟩ :=
      (Place.match?_eq_some (halternates hz) hlast).1 hmatch
    have hpath : x.address ids format = z.address ids' format' := String.toList_inj.1 (by
      rw [Route.toList_address, Route.toList_address]
      exact haddress)
    obtain ⟨rfl, rfl, rfl⟩ := eq_of_reads h hdistinct hr hroot hx hz ⟨haccepts, rfl⟩
      ⟨⟨hfilled, hformat⟩, hpath⟩
    exact ⟨congrArg x.place hsuffix.symm, rfl⟩
  · rintro ⟨rfl, rfl⟩
    exact ⟨⟨x, hx, _, rfl⟩, (Place.match?_eq_some (halternates hx) hlast).2
      ⟨ids, format, haccepts.filled, haccepts.format, rfl, rfl, rfl⟩⟩

end

/-- Every path is the address of at most one route of a table, with one choice of ids and format,
and reading the address of a route among the places of the table gives back the route, the ids and
the format, and nothing else. No two patterns of the table are spelled alike, and all names in its
addresses read like ids. -/
theorem addresses_unambiguous (h : routes r maxDepth rootPath = .ok table)
    (hdistinct : (table.routes.map Route.spelling).Nodup) (hr : r.NamesReadable)
    (hroot : ∃ name : String, IsId name.toList ∧ rootPath = s!"/{name}") :
    (∀ path, ∀ x ∈ table.routes, ∀ y ∈ table.routes, ∀ ids ids' format format',
      x.Reads path ids format → y.Reads path ids' format' →
        x = y ∧ ids = ids' ∧ format = format') ∧
    ∀ x ∈ table.routes, ∀ ids format, x.Accepts ids format →
      Place.candidates table.places (x.address ids format).toList =
        [(x.place format.isSome, { params := x.pattern.bindIds ids, suffix := format })] := by
  refine ⟨fun path x hx y hy ids ids' format format' => eq_of_reads h hdistinct hr hroot hx hy,
    fun x hx ids format haccepts => ?_⟩
  refine List.perm_singleton.1 ((List.perm_ext_iff_of_nodup (nodup_candidates hdistinct _)
    (List.nodup_singleton _)).2 ?_)
  rintro ⟨p, y⟩
  rw [mem_candidates_address h hdistinct hr hroot hx haccepts, List.mem_singleton, Prod.mk.injEq]

/-- The dot in the address ends the second id, and the format goes on after its own dot. -/
theorem addresses_unambiguous_twoNotes :
    ∃ table, routes twoNotes.registry 1 "/root" = .ok table ∧
    ∃ x ∈ table.routes, x.spelling = "/notes/<rid:note_id>/next/<rid:note_id1>" ∧
      Place.candidates table.places "/notes/0/next/1.json.html".toList = [(x.place true,
        { params := [("note_id", .text "0"), ("note_id1", .text "1")]
          suffix := some "json.html" })] := by
  obtain ⟨table, h⟩ : ∃ table, routes twoNotes.registry 1 "/root" = .ok table := ⟨_, rfl⟩
  have hdistinct : (table.routes.map Route.spelling).Nodup := by
    have heval : (routes twoNotes.registry 1 "/root").map (fun table =>
      decide (table.routes.map Route.spelling).Nodup) = .ok true := by decide +kernel
    rw [h] at heval
    exact of_decide_eq_true (Except.ok.inj heval)
  have hnames : twoNotes.registry.NamesReadable := ⟨by decide +kernel, by decide +kernel⟩
  have hw : nextNotes.IsIn twoNotes.registry 1 :=
    { start := rfl, follows := ⟨rfl, rfl, rfl, trivial⟩
      edges_nodup := by decide, length_le := by decide }
  obtain ⟨x, hx, hkind, hpattern, hspot, -⟩ :=
    exists_entity_route twoNotes.registry nextNotes.spot
  have hmem : x ∈ table.routes := (mem_routes h).2 (.inr ⟨_, hw, hx⟩)
  have haccepts : x.Accepts ["0", "1"] (some "json.html") := by
    refine ⟨⟨by rw [hpattern]; decide +kernel, by decide⟩, ?_⟩
    rintro _ ⟨⟩
    exact ⟨by decide, by decide⟩
  obtain ⟨-, hread⟩ := addresses_unambiguous h hdistinct hnames ⟨"root", by decide, rfl⟩
  have haddress : x.address ["0", "1"] (some "json.html") = "/notes/0/next/1.json.html" := by
    rw [Route.address, hpattern]
    decide +kernel
  have hbind : x.pattern.bindIds ["0", "1"] =
      [("note_id", .text "0"), ("note_id1", .text "1")] := by
    have hparams : x.pattern.params = ["note_id", "note_id1"] := by rw [hpattern]; decide +kernel
    rw [Pattern.bindIds, hparams]
    rfl
  have hcandidates := hread x hmem _ _ haccepts
  rw [haddress, hbind] at hcandidates
  exact ⟨table, h, x, hmem, by rw [Route.spelling, hpattern]; decide +kernel, hcandidates⟩

end Tree

end Hypermedia
