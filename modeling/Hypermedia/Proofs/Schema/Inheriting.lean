import Hypermedia.Schema.Registry
import Mathlib.Data.List.Induction
import Mathlib.Logic.Relation

/-!
# The types of a registry

What a registry finds for a target or for a class of records is one of its types
(`Registry.resolve_mem`).

A subtype keeps every relationship of its supertype, refined or not (`exists_mem_merge`), and so
does everything below it. In a registry that was built by registering types, what clients may
follow of a type they may therefore follow of all types below it, unless some subtype hides an
inherited relationship (`Registry.IsBuilt.exists_readable`).
-/

namespace Hypermedia

section Merging

variable {α : Type} [Named α]

theorem nameOf_getD_lastNamed? (own : List α) (d : α) :
    Named.nameOf ((lastNamed? (Named.nameOf d) own).getD d) = Named.nameOf d := by
  induction own using List.reverseRecOn with
  | nil => rfl
  | append_singleton own x ih =>
    by_cases h : Named.nameOf x = Named.nameOf d
    · simp [lastNamed?, h]
    · have hlast : lastNamed? (Named.nameOf d) (own ++ [x]) = lastNamed? (Named.nameOf d) own := by
        simp [lastNamed?, h]
      rw [hlast, ih]

/-- Refining keeps the names in their places. -/
theorem map_nameOf_refine (own : List α) : ∀ (unused : List String) (inherited : List α),
    (refine own unused inherited).1.map Named.nameOf = inherited.map Named.nameOf
  | _, [] => rfl
  | unused, d :: ds => by
    have hfst : (refine own unused (d :: ds)).1 =
        if unused.contains (Named.nameOf d) then
          (lastNamed? (Named.nameOf d) own).getD d ::
            (refine own (unused.filter (· != Named.nameOf d)) ds).1
        else d :: (refine own unused ds).1 := by
      rw [refine]
      split <;> rfl
    rw [hfst]
    split <;> simp [nameOf_getD_lastNamed?, map_nameOf_refine own _ ds]

/-- The inherited names come first, in their order. -/
theorem names_prefix_merge (inherited own : List α) :
    inherited.map Named.nameOf <+: (merge inherited own).map Named.nameOf := by
  change _ <+: ((refine own (own.map Named.nameOf) inherited).1 ++ _).map Named.nameOf
  rw [List.map_append, map_nameOf_refine]
  exact List.prefix_append _ _

/-- Of an inherited descriptor at least the name is kept. -/
theorem exists_mem_merge (own : List α) {inherited : List α} {d : α} (hd : d ∈ inherited) :
    ∃ d' ∈ merge inherited own, Named.nameOf d' = Named.nameOf d := by
  have hname : Named.nameOf d ∈ (refine own (own.map Named.nameOf) inherited).1.map Named.nameOf :=
    map_nameOf_refine own _ inherited ▸ List.mem_map_of_mem hd
  obtain ⟨d', hd', heq⟩ := List.mem_map.1 hname
  exact ⟨d', List.mem_append_left _ hd', heq⟩

end Merging

namespace Registry

/-! ## Types that are found -/

theorem typeOf?_mem {r : Registry} {x : RecordClass} {t : ResourceType}
    (h : r.typeOf? x = some t) : t ∈ r.types := by
  obtain ⟨n, -, hn⟩ := List.exists_of_findSome?_eq_some h
  exact List.mem_reverse.1 (List.mem_of_find?_eq_some hn)

/-- What a target means is a type of the registry. -/
theorem resolve_mem {r : Registry} {x : Target} {t : ResourceType} (h : r.resolve x = .ok t) :
    t ∈ r.types := by
  unfold resolve at h
  split at h
  · split at h
    · next t' ht =>
      cases h
      exact List.mem_of_find?_eq_some ht
    · cases h
  · split at h
    · next t' ht =>
      cases h
      exact typeOf?_mem ht
    · cases h

/-! ## Subtypes -/

/-- The registry was built by registering types. -/
inductive IsBuilt : Registry → Prop
  | empty : IsBuilt .empty
  | register {r : Registry} (h : IsBuilt r) (t : ResourceType) : IsBuilt (r.register t).1

/-- A type is declared as a subtype of another one. -/
def Extends (r : Registry) (t super : ResourceType) : Prop :=
  t ∈ r.types ∧ ∃ name, t.supertype = some name ∧ r.get? name = some super

/-- A type is another one or is below it by one or more declarations. -/
def IsBelow (r : Registry) : ResourceType → ResourceType → Prop := Relation.ReflTransGen r.Extends

/-- No subtype hides a relationship that clients may follow of its supertype. -/
def HidesNothing (r : Registry) : Prop :=
  ∀ t super, r.Extends t super → ∀ rel ∈ t.relationships,
    rel.name ∈ super.readableRelationships.map Relationship.name → rel.isReadable = true

/-- Every subtype keeps the names of the relationships of its supertype. -/
def KeepsNames (r : Registry) : Prop :=
  ∀ t ∈ r.types, ∀ name, t.supertype = some name → ∃ super, r.get? name = some super ∧
    ∀ rel ∈ super.relationships, ∃ rel' ∈ t.relationships, rel'.name = rel.name

variable {r : Registry}

theorem get?_append {name : String} {super : ResourceType} (h : r.get? name = some super)
    (ts : List ResourceType) : (Registry.mk (r.types ++ ts)).get? name = some super := by
  rw [get?, List.find?_append, show r.types.find? _ = some super from h]
  rfl

/-- What is registered with a supertype has inherited from it. -/
theorem prepare_eq_ok {t t' : ResourceType} (h : r.prepare t = .ok t') :
    t' = t ∧ t.supertype = none ∨
      ∃ super, r.get? super.name = some super ∧ t' = t.inherit super := by
  unfold prepare at h
  split at h
  · cases h
  cases hsuper : t.supertype with
  | none =>
    simp only [hsuper, pure, Except.pure, bind, Except.bind] at h
    cases hplural : checkPlural t r.types <;> simp only [hplural] at h <;> cases h
    exact .inl ⟨rfl, rfl⟩
  | some name =>
    simp only [hsuper, resolve, pure, Except.pure, bind, Except.bind] at h
    cases hget : r.get? name with
    | none => simp only [hget] at h; cases h
    | some super =>
      simp only [hget] at h
      cases hplural : checkPlural (t.inherit super) r.types <;> simp only [hplural] at h <;> cases h
      have hname : super.name = name := by simpa using List.find?_some hget
      exact .inr ⟨super, hname ▸ hget, rfl⟩

/-- Every subtype was made of a declared type and of its supertype. -/
theorem IsBuilt.exists_inherit (h : r.IsBuilt) : ∀ t ∈ r.types, ∀ name, t.supertype = some name →
    ∃ (super own : ResourceType), r.get? name = some super ∧ t = own.inherit super := by
  induction h with
  | empty => nofun
  | @register r _ t ih =>
    unfold Registry.register
    cases hprepare : r.prepare t with
    | error f => exact ih
    | ok t' =>
      intro x hx name hname
      rcases List.mem_append.1 hx with hx | hx
      · obtain ⟨super, own, hsuper, hinherit⟩ := ih x hx name hname
        exact ⟨super, own, get?_append hsuper _, hinherit⟩
      · obtain rfl := List.mem_singleton.1 hx
        rcases prepare_eq_ok hprepare with ⟨rfl, hnone⟩ | ⟨super, hsuper, rfl⟩
        · rw [hnone] at hname
          cases hname
        · obtain rfl := Option.some.inj hname
          exact ⟨super, t, get?_append hsuper _, rfl⟩

theorem IsBuilt.keepsNames (h : r.IsBuilt) : r.KeepsNames := by
  intro t ht name hname
  obtain ⟨super, own, hsuper, rfl⟩ := h.exists_inherit t ht name hname
  exact ⟨super, hsuper, fun rel hrel => exists_mem_merge own.relationships hrel⟩

/-- What clients may follow of a type they may follow, by its name, of every type below it. -/
theorem IsBuilt.exists_readable (h : r.IsBuilt) (hr : r.HidesNothing) {t super : ResourceType}
    (ht : r.IsBelow t super) {rel : Relationship} (hrel : rel ∈ super.readableRelationships) :
    ∃ rel' ∈ t.readableRelationships, rel'.name = rel.name := by
  induction ht using Relation.ReflTransGen.head_induction_on with
  | refl => exact ⟨rel, hrel, rfl⟩
  | @head t middle hext _ ih =>
    obtain ⟨rel₁, hrel₁, hname₁⟩ := ih
    obtain ⟨ht, name, hname, hget⟩ := hext
    obtain ⟨_, hget', hkeeps⟩ := h.keepsNames t ht name hname
    obtain rfl := Option.some.inj (hget.symm.trans hget')
    obtain ⟨rel₂, hrel₂, hname₂⟩ := hkeeps rel₁ (List.mem_filter.1 hrel₁).1
    refine ⟨rel₂, List.mem_filter.2 ⟨hrel₂, ?_⟩, hname₂.trans hname₁⟩
    exact hr t middle ⟨ht, name, hname, hget⟩ rel₂ hrel₂
      (hname₂ ▸ List.mem_map_of_mem hrel₁)

end Registry

end Hypermedia
