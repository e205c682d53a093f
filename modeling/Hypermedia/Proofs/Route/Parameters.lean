import Hypermedia.Proofs.Route.Distinct
import Hypermedia.Proofs.Route.Resolving

/-!
# Parameters of routes

The parameter for an id is called after the type, and where a scope above has this name already the
number of parameters before it is put behind the name (`Tree.paramName`). Nobody looks whether that
name is taken. It is not: what follows the last letter of a name tells whether it was numbered, and
how, and no two parameters of a path get the same number (`Tree.numbered_inj`). So all parameters
of a path have different names (`Tree.Spot.IsNamed`), and none of its ids is bound in the place of
another (`Tree.params_nodup_of_mem_routes`).
-/

namespace Hypermedia

namespace Scope

/-- Different parameters are each bound to their own id. -/
theorem map_idOf_zip {names : List String} (h : names.Nodup) {ids : List Value}
    (hlength : ids.length = names.length) :
    names.map (idOf (names.zip ids)) = ids.map .ok := by
  induction names generalizing ids with
  | nil =>
    obtain rfl := List.length_eq_zero_iff.1 hlength
    rfl
  | cons name names ih =>
    cases ids with
    | nil => cases hlength
    | cons id ids =>
      obtain ⟨hname, hnames⟩ := List.nodup_cons.1 h
      have hrest : names.map (idOf ((name, id) :: names.zip ids)) =
          names.map (idOf (names.zip ids)) := by
        refine List.map_congr_left fun other hother => ?_
        have hne : (name == other) = false := by
          rw [beq_eq_false_iff_ne]
          exact fun heq => hname (heq ▸ hother)
        simp only [idOf, List.find?_cons, hne]
      have hself : idOf ((name, id) :: names.zip ids) name = .ok id := by
        simp only [idOf, List.find?_cons, beq_self_eq_true]
      rw [List.zip_cons_cons, List.map_cons, hself, hrest, ih hnames (Nat.succ.inj hlength)]
      rfl

end Scope

namespace Tree

/-- The name of a parameter for an id, with a number behind it or without. -/
def numbered (singular : String) (number : Option Nat) : String :=
  singular ++ "_id" ++ number.elim "" toString

theorem paramName_eq (t : ResourceType) (params : List String) (depth : Nat) :
    paramName t params depth = numbered t.singularName
      (if params.contains (numbered t.singularName none) then some depth else none) := by
  have hplain : numbered t.singularName none = s!"{t.singularName}_id" := String.append_empty
  unfold paramName
  rw [hplain]
  dsimp only
  split
  · rfl
  · exact hplain.symm

/-- A name tells how it is numbered, whatever it begins with. -/
theorem numbered_inj {s t : String} {m n : Option Nat} (h : numbered s m = numbered t n) :
    m = n := by
  have htext : ∀ n : Nat, (toString n).toList = Nat.toDigits 10 n := fun n => by
    rw [Nat.toString_eq_ofList_toDigits, String.toList_ofList]
  have hdigits : ∀ n : Option Nat, 'd' ∉ (n.elim "" toString).toList.reverse := by
    rintro (- | n)
    · exact List.not_mem_nil
    · rw [List.mem_reverse, Option.elim_some, htext]
      exact fun h => absurd (Nat.isDigit_of_mem_toDigits (by decide) (by decide) h) (by decide)
  have hchars : ∀ (s : String) (n : Option Nat), (numbered s n).toList.reverse =
      (n.elim "" toString).toList.reverse ++ 'd' :: 'i' :: '_' :: s.toList.reverse := fun s n => by
    simp [numbered]
  have hsame := congrArg List.reverse (congrArg String.toList h)
  rw [hchars, hchars] at hsame
  have hnumber := List.reverse_injective (append_sep_inj (hdigits m) (hdigits n) hsame).1
  cases m with
  | none =>
    cases n with
    | none => rfl
    | some n => exact absurd hnumber.symm (htext n ▸ Nat.toDigits_ne_nil)
  | some m =>
    rw [Option.elim_some, htext] at hnumber
    cases n with
    | none => exact absurd hnumber Nat.toDigits_ne_nil
    | some n =>
      rw [Option.elim_some, htext] at hnumber
      rw [← Nat.ofDigitChars_ten_toDigits (n := m), hnumber, Nat.ofDigitChars_ten_toDigits]

/-- The name is without a number, or it has one below a bound. -/
def IsNumberedBelow (bound : Nat) (name : String) : Prop :=
  ∃ s number, name = numbered s number ∧ ∀ n ∈ number, n < bound

/-- Names of parameters with numbers below their number. -/
structure AreNamed (params : List String) : Prop where
  nodup : params.Nodup
  numbered : ∀ name ∈ params, IsNumberedBelow params.length name

/-- A name without a number that is taken gets one that no other has. -/
theorem AreNamed.concat_paramName {params : List String} (h : AreNamed params)
    (t : ResourceType) : AreNamed (params ++ [paramName t params params.length]) := by
  have hfresh : paramName t params params.length ∉ params := by
    rw [paramName_eq]
    split
    · intro hmem
      obtain ⟨s, number, heq, hlt⟩ := h.numbered _ hmem
      exact Nat.lt_irrefl _ (hlt _ (numbered_inj heq).symm)
    · next hno => simpa using hno
  refine ⟨List.nodup_append.2 ⟨h.nodup, List.nodup_singleton _, fun a ha b hb heq => ?_⟩, ?_⟩
  · exact hfresh (List.mem_singleton.1 hb ▸ heq ▸ ha)
  · rw [List.length_append, List.length_singleton]
    intro name hname
    rcases List.mem_append.1 hname with hname | hname
    · obtain ⟨s, number, heq, hlt⟩ := h.numbered name hname
      exact ⟨s, number, heq, fun n hn => Nat.lt_succ_of_lt (hlt n hn)⟩
    · rw [List.mem_singleton.1 hname, paramName_eq]
      refine ⟨_, _, rfl, fun n hn => ?_⟩
      split at hn
      · exact Option.some.inj hn ▸ Nat.lt_succ_self _
      · cases hn

/-- All parameters at a spot have different names. -/
structure Spot.IsNamed (p : Spot) : Prop extends p.Aligned where
  named : AreNamed p.scope.allParams

namespace Spot.IsNamed

theorem ofType (t : ResourceType) : (Spot.ofType t).IsNamed :=
  ⟨.ofType t, AreNamed.concat_paramName ⟨List.nodup_nil, by simp⟩ t⟩

theorem advance {p : Spot} (h : p.IsNamed) (x : Step) : (p.advance x).IsNamed := by
  have hparams : p.params ++ [p.scope.idParam] = p.scope.allParams := by
    rw [h.params, Scope.allParams]
  have hchild : (p.advance x).scope.allParams = p.scope.allParams ++
      [paramName x.target p.scope.allParams p.scope.allParams.length] := by
    rw [Scope.allParams, Spot.advance, outerParams_childScope, ← hparams]
    cases x.branch <;> rfl
  exact ⟨h.toAligned.advance x, hchild ▸ h.named.concat_paramName x.target⟩

end Spot.IsNamed

/-- By induction on the steps of the way. -/
theorem Way.isNamed_spot (w : Way) : w.spot.IsNamed := by
  have hfold : ∀ (xs : List Step) {p : Spot}, p.IsNamed → (xs.foldl Spot.advance p).IsNamed := by
    intro xs
    induction xs with
    | nil => exact fun h => h
    | cons x xs ih => exact fun h => ih (h.advance x)
  exact hfold w.steps (.ofType w.start)

variable {r : Registry}

/-- On the way to a collection or an entity, no two scopes have the same parameter for their ids,
whatever the types are called and however often one comes up. The pattern of the route is written
with these parameters, so each of them is bound to its own id of an address. -/
theorem params_nodup_of_mem_routes {maxDepth : Int} {rootPath : String} {table : RouteTable}
    (h : routes r maxDepth rootPath = .ok table) {x : Route} (hx : x ∈ table.routes)
    (hkind : x.kind = .collection ∨ x.kind = .entity) : ∃ sc, x.scope = some sc ∧
      (sc.chain.map Scope.idParam).Nodup ∧ x.pattern.params = sc.neededParams x.kind ∧
      x.pattern.params.Nodup ∧ ∀ ids : List Value, ids.length = x.pattern.params.length →
        x.pattern.params.map (Scope.idOf (x.pattern.params.zip ids)) = ids.map .ok := by
  obtain ⟨w, -, hx⟩ := ((mem_routes h).1 hx).resolve_left <| by
    rintro rfl
    rcases hkind with hkind | hkind <;> cases hkind
  have hspot := w.isNamed_spot
  have hall : (w.spot.scope.outerParams ++ [w.spot.scope.idParam]).Nodup := hspot.named.nodup
  have hchain : (w.spot.scope.chain.map Scope.idParam).Nodup := by
    rw [← List.nodup_reverse, ← Scope.allParams_eq]
    exact hspot.named.nodup
  have hown : x ∈ ownRoutes w.spot.scope w.spot.pattern := by
    refine (List.mem_append.1 hx).resolve_right fun hx => ?_
    obtain ⟨rel, -, rfl⟩ := List.mem_map.1 hx
    rcases hkind with hkind | hkind <;> cases hkind
  obtain ⟨hscope, hparams, hnodup⟩ : x.scope = some w.spot.scope ∧
      x.pattern.params = w.spot.scope.neededParams x.kind ∧ x.pattern.params.Nodup := by
    simp only [ownRoutes, List.mem_cons, List.not_mem_nil, or_false] at hown
    rcases hown with rfl | rfl
    · exact ⟨rfl, hspot.pattern, hspot.pattern ▸ hall.of_append_left⟩
    · exact ⟨rfl, hspot.entityPattern, hspot.entityPattern ▸ hspot.named.nodup⟩
  exact ⟨_, hscope, hchain, hparams, hnodup, fun ids => Scope.map_idOf_zip hnodup⟩

/-- A note that follows another one is bound to a parameter of its own. -/
theorem params_nodup_of_mem_routes_twoNotes : ∃ table, routes twoNotes.registry 1 "/" = .ok table ∧
    ∃ x ∈ table.routes, x.kind = .entity ∧ x.pattern.params = ["note_id", "note_id1"] ∧
      x.pattern.params.map (Scope.idOf (x.pattern.params.zip [.text "0", .text "1"])) =
        [.ok (.text "0"), .ok (.text "1")] := by
  obtain ⟨table, h⟩ : ∃ table, routes twoNotes.registry 1 "/" = .ok table := ⟨_, rfl⟩
  have hw : nextNotes.IsIn twoNotes.registry 1 :=
    { start := rfl, follows := ⟨rfl, rfl, rfl, trivial⟩
      edges_nodup := by decide, length_le := by decide }
  obtain ⟨x, hx, hkind, hpattern, -⟩ := exists_entity_route twoNotes.registry nextNotes.spot
  have hmem : x ∈ table.routes := (mem_routes h).2 (.inr ⟨_, hw, hx⟩)
  have hparams : x.pattern.params = ["note_id", "note_id1"] := by rw [hpattern]; decide +kernel
  obtain ⟨sc, -, -, -, -, hids⟩ := params_nodup_of_mem_routes h hmem (.inr hkind)
  exact ⟨table, h, x, hmem, hkind, hparams, hids [.text "0", .text "1"] (by simp [hparams])⟩

end Tree

end Hypermedia
