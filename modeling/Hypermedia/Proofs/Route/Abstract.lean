import Hypermedia.Proofs.Graph.Gating
import Hypermedia.Proofs.Route.Methods
import Hypermedia.Proofs.Route.Visibility

/-!
# Records of abstract types

Routes are written by the declared type of their members, but an entity is of the own type of its
record, which may be an abstract type below the declared one. Such an entity is not valid for being
changed. The gate of deletion checks the rules for it alone, which know nothing of abstract types
(`Entity.valid_singleton_iff`), so there the entity passes if they are silent
(`Tree.unchanged_of_mem_routes`, `Tree.abstract_hermit_deleted`). Where abstract types only stand
above others and every record that is found under a type belongs there, no written route leads to
such an entity.
-/

namespace Hypermedia

/-- What is declared below a type that has members of its own has members of its own. -/
def Registry.KeepsConcrete (r : Registry) : Prop :=
  ∀ t super, r.Extends t super → super.isAbstract = false → t.isAbstract = false

theorem Registry.KeepsConcrete.of_isBelow {r : Registry} (hr : r.KeepsConcrete)
    {t super : ResourceType} (h : r.IsBelow t super) (hsuper : super.isAbstract = false) :
    t.isAbstract = false := by
  induction h using Relation.ReflTransGen.head_induction_on with
  | refl => exact hsuper
  | head hext _ ih => exact hr _ _ hext ih

/-! ## The gates -/

namespace Entity

variable {R : Type} {g : ResourceGraph (Except Fault) R} {e : Entity R}

theorem valid_singleton {c : Context} : e.valid g [c] = .ok true ↔ e.errors g c = .ok [] := by
  constructor
  · intro h
    obtain ⟨es, hes, h⟩ := bind_eq_ok.1 h
    cases es with
    | nil => exact hes
    | cons => cases h
  · exact fun h => bind_eq_ok.2 ⟨[], h, rfl⟩

/-- Except by default, an entity is valid in a context exactly if the rules of the context report
nothing. -/
theorem valid_singleton_iff {c : Context} (hc : c ≠ .default) :
    e.valid g [c] = .ok true ↔ ∀ v ∈ e.type.validators, v.applies c = true →
      ∃ verdict, g.judge v.rule e = .ok verdict ∧ Errors.ofVerdict verdict = .ok [] := by
  rw [valid_singleton]
  constructor
  · intro h v hv happlies
    obtain ⟨own, ruled, -, hruled, hmerge⟩ := errors_eq_ok h
    obtain ⟨es, hes, hreport⟩ := exists_of_forall₂_left (mapM_eq_ok.1 hruled)
      (List.mem_filter.2 ⟨hv, happlies⟩)
    obtain rfl := Errors.merge_eq_nil.1 hmerge.symm es (List.mem_append_right _ hes)
    exact verdict_eq_ok.1 hreport
  · intro h
    have hruled : e.verdicts g c =
        .ok ((e.type.validators.filter (·.applies c)).map fun _ => []) := by
      refine mapM_eq_ok.2 (List.forall₂_map_right_iff.2 (List.forall₂_same.2 fun v hv => ?_))
      obtain ⟨hv, happlies⟩ := List.mem_filter.1 hv
      exact verdict_eq_ok.2 (h v hv happlies)
    have hmerge : Errors.merge
        ((e.type.validators.filter (·.applies c)).map fun _ => ([] : Errors)) = [] :=
      Errors.merge_eq_nil.2 fun es hes => by
        obtain ⟨-, -, rfl⟩ := List.mem_map.1 hes
        rfl
    rw [errors, if_neg hc]
    exact bind_eq_ok.2 ⟨[], rfl, bind_eq_ok.2 ⟨_, hruled, congrArg Except.ok hmerge⟩⟩

/-- An entity of an abstract type is not valid by default. -/
theorem valid_default_ne (habstract : e.type.isAbstract = true) (cs : List Context) :
    e.valid g (.default :: cs) ≠ .ok true := by
  intro h
  obtain ⟨es, hes, h⟩ := bind_eq_ok.1 h
  have htells := (tells_errors hes).2 (.own (.isAbstract habstract))
  cases es with
  | nil => exact Errors.not_tells_nil htells
  | cons => cases h

end Entity

/-! ## Written routes -/

namespace Tree

/-- Where a written route leads to an entity of an abstract type, the entity is not valid for being
changed, and it is valid for being deleted exactly if the rules for that report nothing. The
declared type of the route is not abstract, so it leads to no such entity if no type below one that
is not is abstract and every record that is found under a type belongs there. -/
theorem unchanged_of_mem_routes {r : Registry} {maxDepth : Int} {rootPath : String}
    {table : RouteTable} (h : routes r maxDepth rootPath = .ok table) {x : Route}
    (hx : x ∈ table.routes) (hwritten : .put ∈ x.methods ∨ .delete ∈ x.methods) {sc : Scope}
    (hscope : x.scope = some sc) {R : Type} (g : ResourceGraph (Except Fault) R)
    (hg : g.registry = r) (params : Scope.Params) (e : Entity R)
    (he : sc.entity g params = .ok e) (habstract : e.type.isAbstract = true) :
    e.valid g [.default, .update] ≠ .ok true ∧
    (e.Answers g → e.valid g [.default, .update] = .ok false) ∧
    (e.valid g [.destroy] = .ok true ↔ ∀ v ∈ e.type.validators, v.applies .destroy = true →
      ∃ verdict, g.judge v.rule e = .ok verdict ∧ Errors.ofVerdict verdict = .ok []) ∧
    sc.memberType.isAbstract = false ∧ ¬(r.KeepsConcrete ∧ g.Conforms) := by
  subst hg
  have hne := Entity.valid_default_ne (g := g) habstract [.update]
  have hconcrete : sc.memberType.isAbstract = false := by
    rcases (mem_routes h).1 hx with rfl | ⟨w, -, hw⟩
    · cases hscope
    obtain ⟨-, -, hput, hdelete⟩ := methods_of_mem_spot w.readOnly_spot hw
    obtain ⟨s, hs, hopen⟩ : x.IsOpen :=
      hwritten.elim (fun h => (hput.1 h).2) fun h => (hdelete.1 h).2
    obtain rfl := Option.some.inj (hscope.symm.trans hs)
    exact hopen.concrete
  refine ⟨hne, fun hanswers => ?_, Entity.valid_singleton_iff (by decide), hconcrete, ?_⟩
  · obtain ⟨valid, hvalid⟩ := hanswers.exists_valid [.default, .update]
    cases valid with
    | false => exact hvalid
    | true => exact absurd hvalid hne
  · rintro ⟨hkeeps, hconforms⟩
    obtain ⟨hformed, -⟩ := formed_of_mem_routes h hx sc hscope
    have hbelow := Scope.isBelow_of_entity hconforms hformed he
    exact absurd (habstract.symm.trans (hkeeps.of_isBelow hbelow hconcrete)) (by decide)

/-! ## Hermits as an abstract type -/

/-- Hermits, of whom none may be made as such. -/
def abstractHermitType : ResourceType := { hermitType .shown with isAbstract := true }

/-- Persons, and hermits below them. -/
def abstractHermits : Registry :=
  ((Registry.empty.register personType).1.register abstractHermitType).1

/-- A hermit and another person. -/
def personAndHermit : ResourceGraph (Except Fault) Bool :=
  { twoPersons .shown with registry := abstractHermits }

/-- The hermit. -/
def hermit : Entity Bool := ⟨abstractHermitType, false, []⟩

/-- The route to a person is written and leads to the hermit. -/
theorem exists_person_route : ∃ table, routes abstractHermits 1 "/" = .ok table ∧
    ∃ x ∈ table.routes, x.spelling = "/persons/<rid:person_id>" ∧ x.kind = .entity ∧
      .put ∈ x.methods ∧ .delete ∈ x.methods ∧ ∃ sc, x.scope = some sc ∧
        sc.entity personAndHermit [("person_id", .text "0")] = .ok hermit := by
  obtain ⟨table, h⟩ : ∃ table, routes abstractHermits 1 "/" = .ok table := ⟨_, rfl⟩
  let way : Way := { place := 0, start := personType, steps := [] }
  have hway : way.IsIn abstractHermits 1 :=
    { start := rfl, follows := trivial, edges_nodup := .nil, length_le := by decide }
  obtain ⟨x, hx, hkind, hpattern, hscope, -⟩ := exists_entity_route abstractHermits way.spot
  have hopen : x.IsOpen :=
    ⟨_, hscope, ⟨by simp [way, Way.spot, Spot.ofType, Scope.chain, Scope.isFinder], rfl⟩⟩
  obtain ⟨-, -, hput, hdelete⟩ := methods_of_mem_spot way.readOnly_spot hx
  refine ⟨table, h, x, (mem_routes h).2 (.inr ⟨_, hway, hx⟩), ?_, hkind, hput.2 ⟨hkind, hopen⟩,
    hdelete.2 ⟨hkind, hopen⟩, _, hscope, ?_⟩
  · rw [Route.spelling, hpattern]
    decide +kernel
  · have hparam : paramName personType [] 0 = "person_id" := by decide
    change (Scope.type personType (paramName personType [] 0)).entity personAndHermit _ = _
    rw [hparam]
    rfl

/-- The hermit is not changed by way of the persons. -/
theorem unchanged_of_mem_routes_hermit : ∃ table, routes abstractHermits 1 "/" = .ok table ∧
    ∃ x ∈ table.routes, .put ∈ x.methods ∧ ∃ sc, x.scope = some sc ∧
      sc.entity personAndHermit [("person_id", .text "0")] = .ok hermit ∧
      hermit.valid personAndHermit [.default, .update] ≠ .ok true := by
  obtain ⟨table, h, x, hx, -, -, hput, -, sc, hscope, he⟩ := exists_person_route
  exact ⟨table, h, x, hx, hput, sc, hscope, he,
    (unchanged_of_mem_routes h hx (.inl hput) hscope personAndHermit rfl _ hermit he rfl).1⟩

/-- The hermit is refused when it is to be changed, but not when it is to be deleted. -/
theorem abstract_hermit_deleted : ∃ table, routes abstractHermits 1 "/" = .ok table ∧
    ∃ x ∈ table.routes, x.spelling = "/persons/<rid:person_id>" ∧ x.kind = .entity ∧
      .put ∈ x.methods ∧ .delete ∈ x.methods ∧ ∃ sc, x.scope = some sc ∧
        sc.entity personAndHermit [("person_id", .text "0")] = .ok hermit ∧
        hermit.type.isAbstract = true ∧
        hermit.valid personAndHermit [.default, .update] = .ok false ∧
        hermit.valid personAndHermit [.destroy] = .ok true := by
  obtain ⟨table, h, x, hx, hspelling, hkind, hput, hdelete, sc, hscope, he⟩ := exists_person_route
  exact ⟨table, h, x, hx, hspelling, hkind, hput, hdelete, sc, hscope, he, rfl, rfl, rfl⟩

end Tree

end Hypermedia
