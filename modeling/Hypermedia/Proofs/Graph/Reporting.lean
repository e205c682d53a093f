import Hypermedia.Graph.Entity
import Hypermedia.Proofs.Outcome
import Hypermedia.Proofs.Schema.Inheriting
import Hypermedia.Proofs.Validation.Merging

/-!
# What the rules of supertypes report

A type begins with the descriptors and the rules of its supertype, and so it begins with those of
every type above it (`ResourceType.Continues`). Errors that are put together tell what any of them
tells (`Errors.tells_merge`). So what a rule of a type above reports for an entity is among the
errors of the entity (`Registry.IsBuilt.continues_and_reports`).
-/

namespace Hypermedia

/-- The errors of an entity are computed from the verdict of every rule that is checked, and tell
what any of them reports. -/
theorem Entity.exists_verdict {R : Type} {g : ResourceGraph (Except Fault) R} {e : Entity R}
    {x : Context} {all : Errors} (h : e.errors g x = .ok all) {v : Validator}
    (hv : v ∈ e.type.validators) (happlies : v.applies x = true) : ∃ verdict reported,
      g.judge v.rule e = .ok verdict ∧ Errors.ofVerdict verdict = .ok reported ∧
        ∀ field message, reported.Tells field message → all.Tells field message := by
  have hrest : ∀ own : List Errors, (do
      let ruled ← e.verdicts g x
      pure (Errors.merge (own ++ ruled)) : Except Fault Errors) = .ok all →
        ∃ verdict reported, g.judge v.rule e = .ok verdict ∧
          Errors.ofVerdict verdict = .ok reported ∧
            ∀ field message, reported.Tells field message → all.Tells field message := by
    intro own hown
    obtain ⟨ruled, hruled, hall⟩ := bind_eq_ok.1 hown
    obtain rfl := pure_eq_ok.1 hall
    obtain ⟨reported, hmem, hreported⟩ :=
      exists_of_forall₂_left (mapM_eq_ok.1 hruled) (List.mem_filter.2 ⟨hv, happlies⟩)
    obtain ⟨verdict, hverdict, hreported⟩ := bind_eq_ok.1 hreported
    refine ⟨verdict, reported, hverdict, by simpa using hreported, fun field message htells => ?_⟩
    exact Errors.tells_merge.2 ⟨reported, List.mem_append_right _ hmem, htells⟩
  unfold Entity.errors at h
  split at h
  · obtain ⟨own, -, h⟩ := bind_eq_ok.1 h
    exact hrest own h
  · exact hrest [] h

/-! ## Types that continue others -/

/-- The descriptors of a type begin, by their names, with those of another one, and its rules with
the rules of the other one. -/
structure ResourceType.Continues (t super : ResourceType) : Prop where
  properties : super.properties.map Property.name <+: t.properties.map Property.name
  relationships : super.relationships.map Relationship.name <+:
    t.relationships.map Relationship.name
  finders : super.finders.map Finder.name <+: t.finders.map Finder.name
  validators : super.validators <+: t.validators

namespace ResourceType

theorem Continues.trans {t middle super : ResourceType} (h : t.Continues middle)
    (h' : middle.Continues super) : t.Continues super where
  properties := h'.properties.trans h.properties
  relationships := h'.relationships.trans h.relationships
  finders := h'.finders.trans h.finders
  validators := h'.validators.trans h.validators

/-- What a type inherits comes first. -/
theorem continues_inherit (t super : ResourceType) : (t.inherit super).Continues super where
  properties := names_prefix_merge super.properties t.properties
  relationships := names_prefix_merge super.relationships t.relationships
  finders := names_prefix_merge super.finders t.finders
  validators := List.prefix_append _ _

end ResourceType

namespace Registry

variable {r : Registry} {t super : ResourceType}

theorem IsBuilt.continues (h : r.IsBuilt) (ht : r.Extends t super) : t.Continues super := by
  obtain ⟨hmem, name, hname, hget⟩ := ht
  obtain ⟨super', own, hget', rfl⟩ := h.exists_inherit t hmem name hname
  obtain rfl := Option.some.inj (hget.symm.trans hget')
  exact own.continues_inherit super

/-- A type begins with the descriptors and the rules of every type above it. Where the errors of
an entity of the type are computed, each of these rules that is checked is judged, and what it
reports is among them. -/
theorem IsBuilt.continues_and_reports (h : r.IsBuilt)
    (ht : Relation.TransGen r.Extends t super) :
    t.Continues super ∧ ∀ {R : Type} (g : ResourceGraph (Except Fault) R) (e : Entity R),
      e.type = t → ∀ x all, e.errors g x = .ok all →
        ∀ v ∈ super.validators, v.applies x = true → ∃ verdict reported,
          g.judge v.rule e = .ok verdict ∧ Errors.ofVerdict verdict = .ok reported ∧
            ∀ field message, reported.Tells field message → all.Tells field message := by
  have hcontinues : t.Continues super := by
    induction ht with
    | single hext => exact h.continues hext
    | tail _ hext ih => exact ih.trans (h.continues hext)
  refine ⟨hcontinues, fun g e he x all hall v hv happlies => ?_⟩
  exact Entity.exists_verdict hall (he ▸ hcontinues.validators.subset hv) happlies

/-- Animals have a rule for changes. -/
def animal : ResourceType :=
  { name := "Animal", properties := [{ name := "name" }], validators := [.of "named" [.update]] }

/-- Dogs are animals. -/
def dog : ResourceType :=
  { name := "Dog", supertype := some "Animal", properties := [{ name := "good" }] }

/-- Puppies are dogs; what their name is, clients do not see. -/
def puppy : ResourceType :=
  { name := "Puppy", supertype := some "Dog"
    properties := [{ name := "age" }, { name := "name", reader := .hidden }] }

/-- The kinds of animals. -/
def kinds : Registry :=
  (((Registry.empty.register animal).1.register dog).1.register puppy).1

/-- The records of these types, none of which has a name. -/
def nameless : ResourceGraph (Except Fault) Unit where
  registry := kinds
  storage :=
    { classOf := fun _ => none, query := fun _ => .ok [()], get := fun _ _ => .ok (some ())
      identity := fun _ => .ok (.int 1), value := fun _ _ => .ok .null
      related := fun _ _ => .ok .nothing, source := fun _ _ => .ok [] }
  judge _ _ := .ok (.object [("name", .text "no name yet")])

theorem types_kinds : kinds.types =
    [animal, dog.inherit animal, puppy.inherit (dog.inherit animal)] := by
  rfl

/-- The rule for animals is checked for puppies, and what it reports is told of them. -/
theorem continues_and_reports_puppy : ∃ t super, Relation.TransGen kinds.Extends t super ∧
    t.Continues super ∧ ∃ all, ({ type := t, record := () } : Entity Unit).errors nameless .update =
      .ok all ∧ all.Tells "name" "no name yet" := by
  have hdog : kinds.Extends (puppy.inherit (dog.inherit animal)) (dog.inherit animal) :=
    ⟨by simp [types_kinds], "Dog", rfl, rfl⟩
  have hanimal : kinds.Extends (dog.inherit animal) animal :=
    ⟨by simp [types_kinds], "Animal", rfl, rfl⟩
  have hbelow := (Relation.TransGen.single hdog).tail hanimal
  have hbuilt : kinds.IsBuilt := .register (.register (.register .empty _) _) _
  obtain ⟨hcontinues, hreports⟩ := hbuilt.continues_and_reports hbelow
  obtain ⟨verdict, reported, hverdict, hreported, htells⟩ :=
    hreports nameless { type := _, record := () } rfl .update _ rfl _ List.mem_cons_self rfl
  obtain rfl := Except.ok.inj hverdict
  obtain rfl := Except.ok.inj hreported
  exact ⟨_, _, hbelow, hcontinues, _, rfl,
    htells _ _ ⟨["no name yet"], List.mem_cons_self, List.mem_cons_self⟩⟩

end Registry

end Hypermedia
