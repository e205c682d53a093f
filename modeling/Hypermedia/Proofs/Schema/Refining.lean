import Hypermedia.Proofs.Fields
import Hypermedia.Proofs.Occurrences
import Hypermedia.Proofs.Schema.Registering

/-!
# Chains of refinements

Where names are not repeated, the descriptors of a subtype are the inherited ones, each replaced by
the own one of its name if there is one, and then the other own ones (`merge_eq`). So two things
say all about them: the order of their names (`map_nameOf_merge`), and that an own descriptor wins
over an inherited one (`mem_merge`). Descriptors with distinct names are the same if they have the
same names in the same order and the same members (`eq_of_map_nameOf_eq`), and therefore it does not
matter which descriptors of a chain are merged first (`merge_isRefinement_and_regroups`) nor which
types of a chain inherit first (`ResourceType.inherit_inherit`).

Registering types keeps the names of their descriptors distinct
(`Registry.hasDistinctNames_of_mem_registerEach`).
-/

namespace Hypermedia

open Named

section

variable {α : Type} [Named α] {a b c : List α} {d : α} {name : String}

/-- The descriptor of a name. -/
def named? (name : String) (ds : List α) : Option α := ds.find? fun d => nameOf d == name

theorem named?_eq_none : named? name b = none ↔ name ∉ b.map nameOf := by
  simp [named?]

theorem named?_eq_some (hb : (b.map nameOf).Nodup) :
    named? name b = some d ↔ d ∈ b ∧ nameOf d = name :=
  find?_key_eq_some hb

/-- Where names differ, the last descriptor of a name is the only one. -/
theorem lastNamed?_eq_named? (name : String) (hb : (b.map nameOf).Nodup) :
    lastNamed? name b = named? name b := by
  induction b using List.reverseRecOn with
  | nil => rfl
  | append_singleton b x ih =>
    obtain ⟨hb, -, hx⟩ := List.nodup_append.1 (List.map_append ▸ hb)
    have hlast : lastNamed? name (b ++ [x]) =
        if nameOf x == name then some x else lastNamed? name b := by
      simp [lastNamed?]
    have hnamed : named? name (b ++ [x]) = (named? name b).or (named? name [x]) :=
      List.find?_append
    rw [hlast, hnamed, ih hb]
    by_cases hname : nameOf x = name
    · have hnone : named? name b = none := named?_eq_none.2 fun hmem =>
        hx name hmem (nameOf x) List.mem_cons_self hname.symm
      rw [hnone, if_pos (by simpa using hname)]
      simp [named?, hname]
    · rw [if_neg (by simpa using hname)]
      simp [named?, hname]

/-! ## The descriptors of a subtype -/

/-- Of inherited descriptors with distinct names those are refined whose names are not used before,
and then their names are used. -/
theorem refine_eq (own : List α) : ∀ (unused : List String) {inherited : List α},
    (inherited.map nameOf).Nodup → refine own unused inherited =
      (inherited.map fun d => if nameOf d ∈ unused then (lastNamed? (nameOf d) own).getD d else d,
        unused.filter (· ∉ inherited.map nameOf))
  | unused, [], _ => by simp [refine]
  | unused, d :: ds, h => by
    obtain ⟨hd, hds⟩ := List.nodup_cons.1 h
    by_cases hunused : nameOf d ∈ unused
    · -- No later one has the name that is used here, so for all of them it is as if it were unused.
      have hrest : ∀ x ∈ ds, (nameOf x ∈ unused.filter (· != nameOf d) ↔ nameOf x ∈ unused) :=
        fun x hx => by
          have hne : nameOf x ≠ nameOf d := fun heq => hd (heq ▸ List.mem_map_of_mem hx)
          simp [hne]
      rw [refine, if_pos (by simpa using hunused), refine_eq own _ hds, List.map_cons,
        if_pos hunused]
      refine congrArg₂ (fun ds names => (_ :: ds, names)) ?_ ?_
      · exact List.map_congr_left fun x hx => by simp only [hrest x hx]
      · rw [List.filter_filter]
        refine List.filter_congr fun name _ => ?_
        by_cases hname : name = nameOf d <;> simp [hname]
    · rw [refine, if_neg (by simpa using hunused), refine_eq own _ hds, List.map_cons,
        if_neg hunused]
      refine Prod.ext rfl (List.filter_congr fun name hname => ?_)
      have hne : name ≠ nameOf d := fun heq => hunused (heq ▸ hname)
      simp [hne]

/-- Inherited descriptors keep their places, refined or not, and the other own ones follow. -/
theorem merge_eq (ha : (a.map nameOf).Nodup) (hb : (b.map nameOf).Nodup) :
    merge a b = a.map (fun d => (named? (nameOf d) b).getD d) ++
      b.filter (nameOf · ∉ a.map nameOf) := by
  rw [merge, refine_eq b _ ha]
  refine congrArg₂ (· ++ ·) (List.map_congr_left fun d _ => ?_) (List.filter_congr fun d hd => ?_)
  · rw [lastNamed?_eq_named? _ hb]
    split
    · rfl
    · next hd =>
      rw [named?_eq_none.2 hd]
      rfl
  · have hmem : nameOf d ∈ b.map nameOf := List.mem_map_of_mem hd
    simp [hmem]

/-- The inherited names come first, and then the other own ones. -/
theorem map_nameOf_merge (ha : (a.map nameOf).Nodup) (hb : (b.map nameOf).Nodup) :
    (merge a b).map nameOf = a.map nameOf ++ (b.map nameOf).filter (· ∉ a.map nameOf) := by
  rw [merge_eq ha hb, List.map_append, List.map_map, List.filter_map]
  congr 1
  refine List.map_congr_left fun d _ => ?_
  rw [Function.comp_apply, ← lastNamed?_eq_named? _ hb, nameOf_getD_lastNamed?]

theorem nodup_merge (ha : (a.map nameOf).Nodup) (hb : (b.map nameOf).Nodup) :
    ((merge a b).map nameOf).Nodup := by
  rw [map_nameOf_merge ha hb, List.nodup_append]
  refine ⟨ha, hb.filter _, fun x hx y hy heq => ?_⟩
  have hnew : y ∉ a.map nameOf := by simpa using (List.mem_filter.1 hy).2
  exact hnew (heq ▸ hx)

/-- An own descriptor wins over an inherited one of its name. -/
theorem mem_merge (ha : (a.map nameOf).Nodup) (hb : (b.map nameOf).Nodup) :
    d ∈ merge a b ↔ d ∈ b ∨ d ∈ a ∧ nameOf d ∉ b.map nameOf := by
  rw [merge_eq ha hb, List.mem_append, List.mem_map, List.mem_filter]
  constructor
  · rintro (⟨x, hx, rfl⟩ | ⟨hd, -⟩)
    · cases hnamed : named? (nameOf x) b with
      | none => exact Or.inr ⟨hx, named?_eq_none.1 hnamed⟩
      | some y => exact Or.inl ((named?_eq_some hb).1 hnamed).1
    · exact Or.inl hd
  · rintro (hd | ⟨hd, hnew⟩)
    · by_cases hname : nameOf d ∈ a.map nameOf
      · obtain ⟨x, hx, heq⟩ := List.mem_map.1 hname
        refine Or.inl ⟨x, hx, ?_⟩
        rw [heq, (named?_eq_some hb).2 ⟨hd, rfl⟩]
        rfl
      · exact Or.inr ⟨hd, by simpa using hname⟩
    · refine Or.inl ⟨d, hd, ?_⟩
      rw [named?_eq_none.2 hnew]
      rfl

theorem mem_names_merge (ha : (a.map nameOf).Nodup) (hb : (b.map nameOf).Nodup) :
    name ∈ (merge a b).map nameOf ↔ name ∈ a.map nameOf ∨ name ∈ b.map nameOf := by
  rw [map_nameOf_merge ha hb, List.mem_append, List.mem_filter, decide_eq_true_iff]
  tauto

/-- A name is bound to the own descriptor if there is one, and else to the inherited one. -/
theorem named?_merge (ha : (a.map nameOf).Nodup) (hb : (b.map nameOf).Nodup) (name : String) :
    named? name (merge a b) = (named? name b).or (named? name a) := by
  cases hown : named? name b with
  | some d =>
    obtain ⟨hd, hname⟩ := (named?_eq_some hb).1 hown
    exact (named?_eq_some (nodup_merge ha hb)).2 ⟨(mem_merge ha hb).2 (Or.inl hd), hname⟩
  | none =>
    have hnew := named?_eq_none.1 hown
    cases hinherited : named? name a with
    | some d =>
      obtain ⟨hd, rfl⟩ := (named?_eq_some ha).1 hinherited
      exact (named?_eq_some (nodup_merge ha hb)).2 ⟨(mem_merge ha hb).2 (Or.inr ⟨hd, hnew⟩), rfl⟩
    | none =>
      refine named?_eq_none.2 fun hmem => ?_
      exact ((mem_names_merge ha hb).1 hmem).elim (named?_eq_none.1 hinherited) hnew

/-! ## Chains -/

/-- Descriptors with distinct names are determined by the order of their names and by what they
are. -/
theorem eq_of_map_nameOf_eq : ∀ {xs ys : List α}, xs.map nameOf = ys.map nameOf →
    (xs.map nameOf).Nodup → (∀ d ∈ xs, d ∈ ys) → xs = ys
  | [], ys, hnames, _, _ => (List.map_eq_nil_iff.1 hnames.symm).symm
  | x :: xs, ys, hnames, hn, hsub => by
    obtain ⟨y, ys, rfl, hname, hrest⟩ := List.map_eq_cons_iff.1 hnames.symm
    obtain ⟨hx, hxs⟩ := List.nodup_cons.1 hn
    have hxy : x = y := (List.mem_cons.1 (hsub x List.mem_cons_self)).resolve_right fun hmem =>
      hx (hrest ▸ List.mem_map_of_mem hmem)
    have htail : ∀ d ∈ xs, d ∈ ys := fun d hd =>
      (List.mem_cons.1 (hsub d (List.mem_cons_of_mem _ hd))).resolve_left fun heq =>
        hx (hname ▸ heq ▸ List.mem_map_of_mem hd)
    rw [hxy, eq_of_map_nameOf_eq hrest.symm hxs htail]

theorem merge_assoc (ha : (a.map nameOf).Nodup) (hb : (b.map nameOf).Nodup)
    (hc : (c.map nameOf).Nodup) : merge (merge a b) c = merge a (merge b c) := by
  have hab := nodup_merge ha hb
  have hbc := nodup_merge hb hc
  refine eq_of_map_nameOf_eq ?_ (nodup_merge hab hc) fun d hd => ?_
  · rw [map_nameOf_merge hab hc, map_nameOf_merge ha hb, map_nameOf_merge ha hbc,
      map_nameOf_merge hb hc]
    exact append_new_assoc _ _ _
  · rw [mem_merge hab hc, mem_merge ha hb] at hd
    rw [mem_merge ha hbc, mem_merge hb hc, mem_names_merge hb hc]
    tauto

/-- Refining once more by what came out changes nothing. -/
theorem merge_merge_self (ha : (a.map nameOf).Nodup) (hb : (b.map nameOf).Nodup) :
    merge a (merge a b) = merge a b := by
  have hab := nodup_merge ha hb
  refine eq_of_map_nameOf_eq ?_ (nodup_merge ha hab) fun d hd => ?_
  · rw [map_nameOf_merge ha hab, map_nameOf_merge ha hb, List.filter_append, List.filter_filter]
    simp
  · rcases (mem_merge ha hab).1 hd with hd | ⟨hd, hnew⟩
    · exact hd
    · exact (hnew ((mem_names_merge ha hb).2 (Or.inl (List.mem_map_of_mem hd)))).elim

theorem merge_nil (ha : (a.map nameOf).Nodup) : merge a [] = a := by
  rw [merge_eq ha (b := []) List.nodup_nil]
  simp [named?]

theorem nil_merge (a : List α) : merge [] a = a := by
  simp only [merge, refine, List.nil_append]
  exact List.filter_eq_self.2 fun d hd => by simpa using ⟨d, hd, rfl⟩

/-- The descriptors are inherited ones refined by own ones: the inherited names in their order and
then the other own names in theirs, none of them twice, each bound to the own descriptor of the name
if there is one and else to the inherited one. -/
structure IsRefinement (inherited own merged : List α) : Prop where
  names : merged.map nameOf =
    inherited.map nameOf ++ (own.map nameOf).filter (· ∉ inherited.map nameOf)
  nodup : (merged.map nameOf).Nodup
  bound : ∀ name, named? name merged = (named? name own).or (named? name inherited)

/-- Inheriting refines the inherited descriptors by the own ones, whichever descriptors of a chain
are merged first. Inheriting from what was inherited already changes nothing, and neither does
inheriting nothing or having nothing of one's own. -/
theorem merge_isRefinement_and_regroups (ha : (a.map nameOf).Nodup) (hb : (b.map nameOf).Nodup)
    (hc : (c.map nameOf).Nodup) :
    merge (merge a b) c = merge a (merge b c) ∧ merge a (merge a b) = merge a b ∧
      merge a [] = a ∧ merge [] a = a ∧ IsRefinement a b (merge a b) :=
  ⟨merge_assoc ha hb hc, merge_merge_self ha hb, merge_nil ha, nil_merge a,
    { names := map_nameOf_merge ha hb
      nodup := nodup_merge ha hb
      bound := named?_merge ha hb }⟩

/-- Properties of animals. -/
def ofAnimals : List Property := [{ name := "name" }, { name := "age" }]

/-- Properties that dogs declare, which need a name. -/
def ofDogs : List Property := [{ name := "good" }, { name := "name", required := true }]

/-- Properties that puppies declare, whose age is not shown. -/
def ofPuppies : List Property :=
  [{ name := "age", reader := .hidden }, { name := "toy" }, { name := "good", required := true }]

theorem merge_isRefinement_and_regroups_ofAnimals :
    merge (merge ofAnimals ofDogs) ofPuppies = merge ofAnimals (merge ofDogs ofPuppies) ∧
      (merge ofAnimals ofDogs).map nameOf = ["name", "age", "good"] ∧
      named? "name" (merge ofAnimals ofDogs) = some { name := "name", required := true } := by
  have hanimals : (ofAnimals.map nameOf).Nodup := by decide
  have hdogs : (ofDogs.map nameOf).Nodup := by decide
  have hpuppies : (ofPuppies.map nameOf).Nodup := by decide
  obtain ⟨hassoc, -, -, -, hrefined⟩ := merge_isRefinement_and_regroups hanimals hdogs hpuppies
  exact ⟨hassoc, hrefined.names.trans (by decide), (hrefined.bound "name").trans (by decide)⟩

end

/-! ## Types of a chain -/

namespace ResourceType

/-- No two descriptors of one kind have the same name. -/
structure HasDistinctNames (t : ResourceType) : Prop where
  properties : (t.properties.map nameOf).Nodup
  relationships : (t.relationships.map nameOf).Nodup
  finders : (t.finders.map nameOf).Nodup

variable {t super top : ResourceType}

theorem HasDistinctNames.inherit (ht : t.HasDistinctNames) (hsuper : super.HasDistinctNames) :
    (t.inherit super).HasDistinctNames where
  properties := nodup_merge hsuper.properties ht.properties
  relationships := nodup_merge hsuper.relationships ht.relationships
  finders := nodup_merge hsuper.finders ht.finders

/-- A type inherits the same from a supertype that has inherited before as it does if it inherits
from the supertype first and from what is above that then, but for the supertype that it names. -/
theorem inherit_inherit (ht : t.HasDistinctNames) (hsuper : super.HasDistinctNames)
    (htop : top.HasDistinctNames) : t.inherit (super.inherit top) =
      { (t.inherit super).inherit top with supertype := some super.name } := by
  have hnew : ∀ known vs : List Validator,
      vs.filter (fun v => !known.contains v) = vs.filter (· ∉ known) :=
    fun known vs => List.filter_congr fun v _ => by simp
  simp only [inherit, hnew, append_new_assoc,
    ← merge_assoc htop.properties hsuper.properties ht.properties,
    ← merge_assoc htop.relationships hsuper.relationships ht.relationships,
    ← merge_assoc htop.finders hsuper.finders ht.finders]

end ResourceType

namespace Registry

variable {r : Registry}

theorem hasDistinctNames_of_mem_register {new : ResourceType} (hnew : new.HasDistinctNames)
    (hr : ∀ t ∈ r.types, t.HasDistinctNames) :
    ∀ t ∈ (r.register new).1.types, t.HasDistinctNames := by
  rcases r.register_cases new with ⟨f, hkept⟩ | ⟨t', hprepare, hadded, -⟩
  · rwa [hkept]
  · rw [hadded]
    intro t ht
    rcases List.mem_append.1 ht with ht | ht
    · exact hr t ht
    · rw [List.mem_singleton.1 ht]
      rcases prepare_eq_ok hprepare with ⟨rfl, -⟩ | ⟨super, hsuper, rfl⟩
      · exact hnew
      · exact hnew.inherit (hr super (List.mem_of_find?_eq_some hsuper))

/-- If the types that are registered have distinct names of descriptors, so have all that are there
in the end, with what they inherit. -/
theorem hasDistinctNames_of_mem_registerEach {ts : List ResourceType}
    (hts : ∀ t ∈ ts, t.HasDistinctNames) (hr : ∀ t ∈ r.types, t.HasDistinctNames) :
    ∀ t ∈ (r.registerEach ts).1.types, t.HasDistinctNames := by
  induction ts generalizing r with
  | nil => exact hr
  | cons new ts ih =>
    obtain ⟨hnew, hts⟩ := List.forall_mem_cons.1 hts
    exact ih hts (hasDistinctNames_of_mem_register hnew hr)

end Registry

end Hypermedia
