import Hypermedia.Api.Service
import Hypermedia.Proofs.Outcome
import Hypermedia.Proofs.Route.Formed

/-!
# The places of a service

A service that is exposed has two places for each route of its table, one without and one with
the suffix of a format, and two for the description of the types, and no others
(`Service.Exposes`). The places that read an address are found whatever their rank
(`Place.mem_candidates`).
-/

namespace Hypermedia

namespace Service

/-- The places of what is served: without and with the suffix of a format. -/
def twoPlaces (mount : String) (alone suffixed : Pattern) (methods : List Method)
    (target : Endpoint) : List (Place Endpoint) :=
  [{ pattern := mounted mount alone, hasSuffix := false, methods, target },
   { pattern := mounted mount suffixed, hasSuffix := true, methods, target }]

/-- The pattern of a route without a suffix; that of the root may be set to nothing. -/
def alonePattern (root : PathOption) (x : Route) : Pattern :=
  if x.kind = .root then [.text root.alone] else x.pattern

theorem placesOf_eq_ok {mount : String} {alone suffixed : Pattern} {methods : List Method}
    {target : Endpoint} {ps : List (Place Endpoint)}
    (h : placesOf mount alone suffixed methods target = .ok ps) :
    ps = twoPlaces mount alone suffixed methods target := by
  simp only [placesOf, bind_eq_ok, pure_eq_ok] at h
  obtain ⟨-, -, -, -, rfl⟩ := h
  rfl

theorem mem_routePlaces {mount : String} {root : PathOption} {p : Place Endpoint} :
    ∀ {xs before : List Route} {ps : List (Place Endpoint)},
      routePlaces mount root before xs = .ok ps → (p ∈ ps ↔ ∃ x ∈ xs,
        p ∈ twoPlaces mount (alonePattern root x) x.pattern x.methods (.route x)) := by
  intro xs
  induction xs with
  | nil =>
    intro before ps h
    obtain rfl := Except.ok.inj h
    simp
  | cons x xs ih =>
    intro before ps h
    unfold routePlaces at h
    split at h
    · cases h
    · simp only [bind_eq_ok, pure_eq_ok] at h
      obtain ⟨here, hhere, rest, hrest, rfl⟩ := h
      rw [List.mem_append, ih hrest, placesOf_eq_ok hhere]
      simp [alonePattern]

/-- The option that sets the path of the root. -/
def rootOption (s : Service) : PathOption := ⟨s.settings.get "ROOT_PATH"⟩

/-- The option that sets the path of the description of the types. -/
def schemaOption (s : Service) : PathOption := ⟨s.settings.get "SCHEMA_PATH"⟩

/-- The service was made by exposing its registry. -/
structure Exposes (s : Service) : Prop where
  refusal : s.refusal = none
  routes : ∃ depth, Conversion.toInt (s.settings.get "MAX_NESTING_DEPTH") = .ok depth ∧
    Tree.routes s.registry depth s.rootOption.text = .ok s.routes
  places : ∀ p, p ∈ s.places ↔
    (∃ x ∈ s.routes.routes,
      p ∈ twoPlaces s.mount (alonePattern s.rootOption x) x.pattern x.methods (.route x)) ∨
    p ∈ twoPlaces s.mount [.text s.schemaOption.alone] [.text s.schemaOption.text] [.get] .schema

/-- What exposing a registry makes. -/
theorem expose_eq_ok {registry : Registry} {rules : RuleBook} {settings : Settings}
    {detail : Detail} {mount : String} {s : Service}
    (h : expose registry rules settings detail mount = .ok s) :
    s.Exposes ∧ s.registry = registry ∧ s.rules = rules ∧ s.settings = settings ∧
      s.detail = detail ∧ s.mount = mount := by
  simp only [expose, bind_eq_ok, pure_eq_ok] at h
  obtain ⟨depth, hdepth, routes, hroutes, origin, -, ps, hps, qs, hqs, rfl⟩ := h
  refine ⟨⟨rfl, ⟨depth, hdepth, hroutes⟩, fun p => ?_⟩, rfl, rfl, rfl, rfl, rfl⟩
  rw [List.mem_append, mem_routePlaces hps, placesOf_eq_ok hqs]
  rfl

/-- A place leads to a route of the table with the methods of the route, or to the description. -/
theorem Exposes.target {s : Service} (h : s.Exposes) {p : Place Endpoint} (hp : p ∈ s.places) :
    (∃ x ∈ s.routes.routes, p.target = .route x ∧ p.methods = x.methods) ∨
      p.target = .schema := by
  rcases (h.places p).1 hp with ⟨x, hx, hp⟩ | hp
  · refine Or.inl ⟨x, hx, ?_⟩
    simp only [twoPlaces, List.mem_cons, List.not_mem_nil, or_false] at hp
    rcases hp with rfl | rfl <;> exact ⟨rfl, rfl⟩
  · simp only [twoPlaces, List.mem_cons, List.not_mem_nil, or_false] at hp
    rcases hp with rfl | rfl <;> exact Or.inr rfl

/-- The routes that places lead to are formed. -/
theorem Exposes.formed {s : Service} (h : s.Exposes) {p : Place Endpoint} (hp : p ∈ s.places) :
    (∃ x : Route, x.Formed s.registry ∧ p.target = .route x ∧ p.methods = x.methods) ∨
      p.target = .schema := by
  obtain ⟨depth, -, hroutes⟩ := h.routes
  exact (h.target hp).imp_left fun ⟨x, hx, htarget⟩ =>
    ⟨x, Tree.formed_of_mem_routes hroutes hx, htarget⟩

end Service

/-- What a pattern leaves of a text is at its end. -/
theorem Pattern.isSuffix_of_read? : ∀ {pattern : Pattern} {s : List Char}
    {x : Scope.Params × List Char}, Pattern.read? pattern s = some x → x.2 <:+ s := by
  intro pattern
  induction pattern with
  | nil =>
    intro s x h
    obtain rfl := Option.some.inj h
    exact List.suffix_rfl
  | cons piece pattern ih =>
    intro s x h
    cases piece with
    | text t =>
      rw [Pattern.read?] at h
      split at h
      · exact (ih h).trans (List.drop_suffix _ s)
      · cases h
    | id q =>
      cases s with
      | nil => simp [Pattern.read?] at h
      | cons c s =>
        by_cases hc : c = '/'
        · subst hc
          rw [Pattern.read?] at h
          split at h
          · cases h
          · obtain ⟨y, hy, rfl⟩ := Option.map_eq_some_iff.1 h
            exact (ih hy).trans ((List.dropWhile_suffix _).trans (List.suffix_cons _ s))
        · simp [Pattern.read?, hc] at h

namespace Place

variable {α : Type} {places : List (Place α)} {p : Place α} {x : Match} {address : List Char}

/-- The places that read an address, with what they read, as the places stand. -/
def readers (places : List (Place α)) (address : List Char) : List (Place α × Match) :=
  places.filterMap fun p => (p.match? address).map fun x => (p, x)

/-- The places that read an address are tried in the order of their ranks. -/
theorem candidates_perm (places : List (Place α)) (address : List Char) :
    (candidates places address).Perm (readers places address) :=
  (List.filter_append_perm _ _).trans ((List.mergeSort_perm places _).filterMap _)

/-- The places that read an address are found, whatever their rank. -/
theorem mem_candidates : (p, x) ∈ candidates places address ↔
    p ∈ places ∧ p.match? address = some x := by
  rw [(candidates_perm places address).mem_iff]
  simp only [readers, List.mem_filterMap, Option.map_eq_some_iff, Prod.mk.injEq]
  constructor
  · rintro ⟨q, hq, y, hy, rfl, rfl⟩
    exact ⟨hq, hy⟩
  · exact fun ⟨hp, hx⟩ => ⟨p, hp, x, hx, rfl, rfl⟩

/-- The suffix that is read stands at the end of the address, after a dot. -/
theorem isSuffix_of_match? (h : p.match? address = some x) {e : String} (he : x.suffix = some e) :
    '.' :: e.toList <:+ address := by
  unfold match? at h
  split at h
  · simp only [Option.bind_eq_bind, Option.bind_eq_some_iff] at h
    obtain ⟨y, hy, e', he', h⟩ := h
    obtain rfl := Option.some.inj h
    obtain rfl := Option.some.inj he
    have hrest := Pattern.isSuffix_of_read? hy
    unfold suffix? at he'
    split at he'
    · next s heq =>
      split at he'
      · cases he'
      · obtain rfl := Option.some.inj he'
        rw [String.toList_ofList]
        exact heq ▸ hrest
    · cases he'
  · -- Without a suffix none is read.
    have hnone : x.suffix = none := by
      split at h
      · cases h
        rfl
      · split at h
        · cases h
          rfl
        · cases h
      · split at h
        · cases h
          rfl
        · cases h
    rw [hnone] at he
    cases he
/-- A place that serves the name of a method has the method. -/
theorem mem_methods_of_contains {y : Method} (h : p.methodNames.contains y.name = true) :
    y ∈ p.methods := by
  have hmem : y.name ∈ p.methodNames := by simpa using h
  have hhead : y.name ∉ if p.methods.contains .get then ["HEAD"] else [] := by
    split <;> cases y <;> simp [Method.name]
  have hoptions : y.name ≠ "OPTIONS" := by cases y <;> simp [Method.name]
  simp only [methodNames, List.mem_append, List.mem_singleton, hhead, hoptions, false_or, or_false,
    List.mem_map] at hmem
  obtain ⟨z, hz, hname⟩ := hmem
  have hzy : z = y := by revert hname; cases z <;> cases y <;> simp [Method.name]
  exact hzy ▸ hz

end Place

end Hypermedia
