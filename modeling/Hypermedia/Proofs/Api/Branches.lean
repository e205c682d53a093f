import Hypermedia.Proofs.Api.Replying
import Hypermedia.Proofs.Api.Unambiguous

/-!
# What reads the address of a branch

The address of what a relationship of an entity leads to is that of the entity with the name of the
relationship after it (`ResourceType.branchAddress`). Where names read like ids, only routes of this
relationship read it (`Service.eq_of_match?_branch`): a pattern that is filled with one id and reads
the address has the plural name and the name of the relationship, so the way to it has no steps, or
one by this relationship. The names in the full forms of the type have to differ, so that no other
relationship and no finder has the name.
-/

namespace Hypermedia

/-- The address of what a relationship of an entity leads to, with the suffix of a format. -/
def ResourceType.branchAddress (t : ResourceType) (id : List Char) (name : String)
    (ext : Option String) : List Char :=
  '/' :: t.pluralName.toList ++
    '/' :: (id ++ '/' :: (name.toList ++ (Naming.formatSuffix ext).toList))

/-- The parameter for the ids of a type at the beginning of an address. -/
def ResourceType.idParam (t : ResourceType) : String := Tree.paramName t [] 0

/-- The pattern of what a relationship of the entities of a type leads to. -/
def ResourceType.branchPattern (t : ResourceType) (name : String) : Pattern :=
  [.text s!"/{t.pluralName}", .id t.idParam, .text s!"/{name}"]

/-- A route to what a relationship of the entities of a type leads to. -/
structure Route.IsBranch (t : ResourceType) (rel : Relationship) (x : Route) : Prop where
  pattern : x.pattern = t.branchPattern rel.name
  many : rel.isMany = true → x.kind = .collection ∧ ∃ target p,
    x.scope = some (.relationship target p false (.type t t.idParam) rel)
  one : rel.isMany = false → x.kind = .singular ∧ ∃ target,
    x.scope = some (.singular target t.idParam (.type t t.idParam) rel)

theorem Pattern.name_inj {name other : String} (h : s!"/{name}" = s!"/{other}") : name = other := by
  have hchars := congrArg String.toList h
  rw [toList_name, toList_name] at hchars
  exact String.toList_inj.1 (List.cons.inj hchars).2

namespace Tree

variable {r : Registry} {maxDepth : Int} {rootPath : String} {table : RouteTable}

/-- Where the names in the full forms of a type differ, no two branches have one name. -/
theorem branch_eq_of_name {t : ResourceType} (h : t.fieldNames.Nodup) {a b : Branch}
    (ha : a ∈ branches t) (hb : b ∈ branches t) (hname : a.name = b.name) : a = b := by
  have hnames : (branches t).map Branch.name =
      t.readableRelationships.map Relationship.name ++ t.finders.map Finder.name := by
    simp [branches, Function.comp_def, Branch.name]
  have hnodup : ((branches t).map Branch.name).Nodup := by
    refine h.sublist ?_
    rw [hnames, ResourceType.fieldNames, List.append_assoc]
    exact (List.sublist_append_right _ _).cons _
  exact List.inj_on_of_nodup_map hnodup ha hb hname

theorem Spot.branchPattern_ofType (t : ResourceType) (name : String) :
    (Spot.ofType t).branchPattern name = t.branchPattern name := by
  simp only [Spot.branchPattern, Spot.entityPattern, Spot.ofType, ResourceType.branchPattern,
    ResourceType.idParam, Scope.idParam, List.cons_append, List.nil_append]

theorem Spot.scope_advance_ofType (t : ResourceType) {x : Step} {rel : Relationship}
    (hx : x.branch = .relationship rel) : ((Spot.ofType t).advance x).scope =
      .relationship x.target (paramName x.target [t.idParam] 1) false (.type t t.idParam) rel := by
  simp only [Spot.advance, Spot.ofType, hx, childScope, Scope.readOnly, Scope.idParam,
    ResourceType.idParam, List.nil_append, List.length_singleton]

/-- A pattern of one name is that of a way without steps. -/
theorem Way.steps_eq_nil {w : Way} {name : String}
    (h : w.spot.pattern.shape = [.text s!"/{name}"]) :
    w.steps = [] ∧ w.start.pluralName = name := by
  obtain ⟨i, t, steps⟩ := w
  rcases List.eq_nil_or_concat steps with rfl | ⟨xs, x, rfl⟩
  · have htext : s!"/{t.pluralName}" = s!"/{name}" := by
      simpa [Way.spot, Spot.ofType, Pattern.shape, PatternPiece.unnamed] using h
    exact ⟨rfl, Pattern.name_inj htext⟩
  · rw [List.concat_eq_append, Way.spot_concat] at h
    have hlength := congrArg List.length (h.symm.trans (shape_branchPattern _ x.branch.name))
    simp at hlength

/-- The routes whose patterns have one name after an id of a type are those of the branch of this
name. -/
theorem isBranch_of_shape (hdistinct : (r.types.map ResourceType.pluralName).Nodup)
    {w : Way} (hw : w.IsIn r maxDepth) {x : Route} (hx : x ∈ w.spot.routes r) {t : ResourceType}
    (ht : t ∈ r.types) {rel : Relationship}
    (honly : ∀ b ∈ branches t, b.name = rel.name → b = .relationship rel)
    (hshape : x.pattern.shape = (t.branchPattern rel.name).shape) : x.IsBranch t rel := by
  -- What comes before the name leads to the entities of the type.
  have hbefore : ∀ {w : Way} {name : String}, w.IsIn r maxDepth →
      (w.spot.branchPattern name).shape = (t.branchPattern rel.name).shape →
      w.steps = [] ∧ w.start = t ∧ name = rel.name := by
    intro w name hw hshape
    rw [← Spot.branchPattern_ofType, shape_branchPattern, shape_branchPattern] at hshape
    obtain ⟨hbegin, hlast⟩ := List.append_inj' hshape rfl
    obtain ⟨hnil, hplural⟩ := Way.steps_eq_nil hbegin
    have htext : s!"/{name}" = s!"/{rel.name}" := by simpa using hlast
    exact ⟨hnil, List.inj_on_of_nodup_map hdistinct (List.mem_of_getElem? hw.start) ht hplural,
      Pattern.name_inj htext⟩
  obtain ⟨i, start, steps⟩ := w
  rcases List.mem_append.1 hx with hx | hx
  · simp only [ownRoutes, List.mem_cons, List.not_mem_nil, or_false] at hx
    rcases hx with rfl | rfl
    · rcases List.eq_nil_or_concat steps with rfl | ⟨xs, b, rfl⟩
      · have hlength := congrArg List.length hshape
        simp [Way.spot, Spot.ofType, Pattern.shape, ResourceType.branchPattern] at hlength
      · rw [List.concat_eq_append] at hw hshape ⊢
        rw [Way.spot_concat] at hshape ⊢
        obtain ⟨hnil, hstart, hname⟩ := hbefore hw.of_concat hshape
        obtain rfl : xs = [] := hnil
        obtain rfl : start = t := hstart
        obtain ⟨hplace, hdeep, -⟩ := hw.follows
        have hbranch := honly _ (List.mem_of_getElem? hplace) hname
        rw [hbranch] at hdeep
        refine ⟨?_, fun _ => ⟨rfl, b.target, _,
          congrArg some (Spot.scope_advance_ofType start hbranch)⟩,
          fun hone => absurd (hdeep.symm.trans hone) Bool.noConfusion⟩
        change (Spot.ofType start).branchPattern b.branch.name = _
        rw [hname, Spot.branchPattern_ofType]
    · have hlast := congrArg List.getLast? ((shape_entityPattern _).symm.trans hshape)
      simp [ResourceType.branchPattern, Pattern.shape, PatternPiece.unnamed] at hlast
  · obtain ⟨other, hother, rfl⟩ := List.mem_map.1 hx
    obtain ⟨hnil, hstart, hname⟩ := hbefore hw hshape
    obtain rfl : steps = [] := hnil
    obtain rfl : start = t := hstart
    obtain ⟨hreadable, hone⟩ := List.mem_filter.1 hother
    obtain rfl : other = rel := by
      have hbranch := honly (.relationship other)
        (List.mem_append_left _ (List.mem_map_of_mem hreadable)) hname
      simpa using hbranch
    rw [Bool.not_eq_true'] at hone
    exact ⟨Spot.branchPattern_ofType start other.name,
      fun hmany => absurd (hone.symm.trans hmany) Bool.noConfusion, fun _ => ⟨rfl, _, rfl⟩⟩

/-- There is a route to what a relationship to one of the entities of a type leads to. -/
theorem exists_singular_of_mem_types (h : routes r maxDepth rootPath = .ok table)
    {t : ResourceType} (ht : t ∈ r.types) {rel : Relationship}
    (hrel : rel ∈ t.readableRelationships) (hone : rel.isMany = false) :
    ∃ x ∈ table.routes, x.IsBranch t rel := by
  obtain ⟨i, hi⟩ := List.getElem?_of_mem ht
  let w : Way := { place := i, start := t, steps := [] }
  have hw : w.IsIn r maxDepth :=
    { start := hi, follows := trivial, edges_nodup := List.nodup_nil
      length_le := by simp only [w, List.length_nil]; omega }
  exact ⟨w.spot.singular r rel, (mem_routes h).2 (Or.inr ⟨w, hw, List.mem_append_right _
    (List.mem_map_of_mem (List.mem_filter.2 ⟨hrel, by simp [hone]⟩))⟩),
    Spot.branchPattern_ofType t rel.name,
    fun hmany => absurd (hone.symm.trans hmany) Bool.noConfusion, fun _ => ⟨rfl, _, rfl⟩⟩

end Tree

namespace Service

variable {s : Service} (h : s.Exposes) (hs : s.Separates) (hr : s.registry.NamesReadable)
  {t : ResourceType} (ht : t ∈ s.registry.types) {rel : Relationship}
  (hrel : rel ∈ t.readableRelationships) {id : List Char} (hid : IsId id) {ext : Option String}
  (hext : ∀ e ∈ ext, IsExt e)

include hr ht hrel in
theorem alternates_branchPattern : (t.branchPattern rel.name).Alternates true :=
  .name (hr.plural t ht) (.id (.name
    (hr.branch t ht (.relationship rel) (List.mem_append_left _ (List.mem_map_of_mem hrel)))
    (.nil _)))

include hid in
theorem isFilledBy_branchPattern (name : String) :
    (t.branchPattern name).IsFilledBy [String.ofList id] :=
  Pattern.isFilledBy_text.2 (Pattern.isFilledBy_id.2 ⟨_, [], rfl, by rwa [String.toList_ofList],
    Pattern.isFilledBy_text.2 (Pattern.isFilledBy_nil.2 rfl)⟩)

theorem branchAddress_eq (name : String) : t.branchAddress id name ext =
    ((t.branchPattern name).fill [String.ofList id]).toList ++
      (Naming.formatSuffix ext).toList := by
  rw [ResourceType.branchPattern, Pattern.toList_fill_name, Pattern.toList_fill_id,
    Pattern.toList_fill_name, String.toList_ofList]
  simp [ResourceType.branchAddress, Pattern.fill]

include hr ht hrel hid hext in
theorem getLast?_branchAddress : (t.branchAddress id rel.name ext).getLast? ≠ some '/' := by
  rw [branchAddress_eq]
  exact (alternates_branchPattern hr ht hrel).getLast?_fill_append
    (isFilledBy_branchPattern hid _) hext

/-- Patterns of routes that start from a type are mounted as they are. -/
theorem mounted_starts {u : ResourceType} (hu : '/' ∉ u.pluralName.toList) {x : Route}
    (hx : x.Starts u) : mounted "" x.pattern = x.pattern := by
  have hname : String.ofList ('/' :: u.pluralName.toList) = s!"/{u.pluralName}" :=
    String.toList_inj.1 (by rw [String.toList_ofList, Pattern.toList_name])
  cases hx with
  | all hpattern => rw [hpattern, mounted_plural hu, hname]
  | one q hpattern => rw [hpattern, mounted_plural hu, hname]
  | below q name rest hpattern => rw [hpattern, mounted_plural hu, hname]

include h hs hr ht hrel hid hext

variable (hnames : t.fieldNames.Nodup)

include hnames

/-- Whatever reads the address of a branch leads to what the relationship leads to. -/
theorem eq_of_match?_branch {p : Place Endpoint} (hp : p ∈ s.places) {y : Match}
    (hy : p.match? (t.branchAddress id rel.name ext) = some y) :
    ∃ x ∈ s.routes.routes, p.target = .route x ∧ p.methods = x.methods ∧ x.IsBranch t rel ∧
      y = { params := [(t.idParam, .text (String.ofList id))], suffix := ext } := by
  have hoption : ∀ {o : PathOption} {u : String}, o ∈ [s.rootOption, s.schemaOption] →
      u ∈ [o.alone, o.text] → p.pattern ≠ mounted s.mount [.text u] := by
    intro o u ho hu hpattern
    rw [hs.mount, mounted_text] at hpattern
    have hnone : p.match? (t.branchAddress id rel.name ext) = none :=
      Place.match?_text hid hpattern (hs.option o ho u hu t ht)
    rw [hnone] at hy
    cases hy
  obtain ⟨depth, -, hroutes⟩ := h.routes
  rcases (h.places p).1 hp with ⟨x, hx, hp⟩ | hp
  swap
  · obtain ⟨hpattern, -⟩ := mem_twoPlaces hp
    rcases hpattern with hp | hp
    · exact absurd hp (hoption (o := s.schemaOption) (by simp) (by simp))
    · exact absurd hp (hoption (o := s.schemaOption) (by simp) (by simp))
  obtain ⟨hpattern, hmethods, htarget⟩ := mem_twoPlaces hp
  have hpattern : p.pattern = mounted s.mount x.pattern := by
    refine hpattern.elim (fun hp => ?_) fun hp => hp
    unfold alonePattern at hp
    split at hp
    · exact absurd hp (hoption (o := s.rootOption) (by simp) (by simp))
    · exact hp
  rcases (Tree.mem_routes hroutes).1 hx with rfl | ⟨w, hw, hxw⟩
  · exact absurd hpattern (hoption (o := s.rootOption) (by simp) (by simp))
  have hstart := List.mem_of_getElem? hw.start
  rw [hs.mount, mounted_starts (hs.slash _ hstart)
    (Tree.Spot.starts_of_mem_routes w.spot_cases hxw)] at hpattern
  -- The names and the ids are read off, so they are those of the branch.
  have halternates : p.pattern.Alternates true := hpattern ▸ hw.alternates hr hxw
  obtain ⟨ids, format, hfilled, hformat, -, haddress, rfl⟩ := (Place.match?_eq_some halternates
    (getLast?_branchAddress hr ht hrel hid hext)).1 hy
  rw [branchAddress_eq] at haddress
  obtain ⟨hshape, rfl, hsuffix⟩ := (alternates_branchPattern hr ht hrel).eq_of_fill_append
    halternates (isFilledBy_branchPattern hid _) hfilled (isEnding_formatSuffix hext)
    (isEnding_formatSuffix hformat) haddress
  obtain rfl := formatSuffix_inj hext hformat hsuffix
  rw [hpattern] at hshape
  have hbranch := Tree.isBranch_of_shape hs.distinct hw hxw ht (fun b hb hname =>
    Tree.branch_eq_of_name hnames hb
      (List.mem_append_left _ (List.mem_map_of_mem hrel)) hname) hshape.symm
  refine ⟨x, hx, htarget, hmethods, hbranch, ?_⟩
  rw [hpattern, hbranch.pattern]
  rfl

omit hnames in
/-- The address of a branch is read if there is a route of the relationship. -/
theorem exists_match?_branch {x : Route} (hx : x ∈ s.routes.routes) (hbranch : x.IsBranch t rel) :
    ∃ p ∈ s.places, p.methods = x.methods ∧
      (p.match? (t.branchAddress id rel.name ext)).isSome = true := by
  have halone : alonePattern s.rootOption x = x.pattern := by
    refine if_neg fun hroot => ?_
    cases hmany : rel.isMany with
    | true => exact absurd ((hbranch.many hmany).1.symm.trans hroot) (by decide)
    | false => exact absurd ((hbranch.one hmany).1.symm.trans hroot) (by decide)
  have hmounted : mounted s.mount x.pattern = t.branchPattern rel.name := by
    rw [hs.mount, mounted_starts (hs.slash t ht) (.below _ _ _ hbranch.pattern), hbranch.pattern]
  obtain ⟨p, hp, hpattern, hmethods, hsuffix⟩ : ∃ p ∈ s.places,
      p.pattern = t.branchPattern rel.name ∧ p.methods = x.methods ∧
        p.hasSuffix = ext.isSome := by
    cases ext with
    | none => exact ⟨_, (h.places _).2 (Or.inl ⟨x, hx, List.mem_cons_self⟩),
        halone.symm ▸ hmounted, rfl, rfl⟩
    | some e => exact ⟨_, (h.places _).2 (Or.inl ⟨x, hx, List.mem_cons_of_mem _
        List.mem_cons_self⟩), hmounted, rfl, rfl⟩
  refine ⟨p, hp, hmethods, Option.isSome_iff_exists.2 ⟨_, (Place.match?_eq_some
    (hpattern ▸ alternates_branchPattern hr ht hrel)
    (getLast?_branchAddress hr ht hrel hid hext)).2 ⟨_, ext, hpattern ▸
      isFilledBy_branchPattern hid _, hext, hsuffix.symm, hpattern ▸ branchAddress_eq _, rfl⟩⟩⟩

/-- A request to read the address of a branch is answered by a route of the relationship, if there
is one. -/
theorem exists_chosen?_branch {x₀ : Route} (hx₀ : x₀ ∈ s.routes.routes)
    (hbranch : x₀.IsBranch t rel) {request : Request} (hmethod : request.method = "GET")
    (hpath : request.path = t.branchAddress id rel.name ext) :
    ∃ p x, chosen? (Place.candidates s.places request.path) request =
        some (p, { params := [(t.idParam, .text (String.ofList id))], suffix := ext }) ∧
      p.target = .route x ∧ x.IsBranch t rel := by
  obtain ⟨depth, -, hroutes⟩ := h.routes
  obtain ⟨p₀, hp₀, hmethods, hsome⟩ :=
    exists_match?_branch h hs hr ht hrel hid hext hx₀ hbranch
  obtain ⟨y₀, hy₀⟩ := Option.isSome_iff_exists.1 hsome
  have hmem₀ : (p₀, y₀) ∈ Place.candidates s.places request.path :=
    Place.mem_candidates.2 ⟨hp₀, hpath ▸ hy₀⟩
  have hserved : (p₀.methodNames.contains request.method) = true := by
    have hget := (Tree.methods_of_mem_routes hroutes hx₀).1
    rw [List.contains_iff_mem, Place.methodNames, hmethods, hmethod]
    exact List.mem_append_left _ (List.mem_append_right _
      (List.mem_map_of_mem (f := Method.name) hget))
  obtain ⟨⟨p, y⟩, hchosen⟩ : ∃ found,
      chosen? (Place.candidates s.places request.path) request = some found :=
    Option.isSome_iff_exists.1 (List.find?_isSome.2 ⟨_, hmem₀, hserved⟩)
  obtain ⟨hp, hy⟩ := Place.mem_candidates.1 (List.mem_of_find?_eq_some hchosen)
  obtain ⟨x, -, htarget, -, hbranch', rfl⟩ :=
    eq_of_match?_branch h hs hr ht hrel hid hext hnames hp (hpath ▸ hy)
  exact ⟨p, x, hchosen, htarget, hbranch'⟩

end Service

end Hypermedia
