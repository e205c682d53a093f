import Hypermedia.Proofs.Route.Ways

/-!
# How patterns are spelled

The spelling of a pattern puts each parameter between angle brackets. Where no name of the
registry has such a bracket, the parameters can be read off the spelling again
(`namedParams_spelling`): singular and plural names have no brackets then, nor have the
parameters made of them, nor the patterns of routes (`Tree.unbracketed_of_mem_routes`).
-/

namespace Hypermedia

/-! ## Texts without brackets -/

/-- Angle brackets stand around the parameters of a spelled pattern. -/
def isBracket (c : Char) : Bool := c == '<' || c == '>'

/-- No angle bracket stands among the characters. -/
def Unbracketed (s : List Char) : Prop := ∀ c ∈ s, isBracket c = false

instance (s : List Char) : Decidable (Unbracketed s) :=
  decidable_of_iff (s.all fun c => !isBracket c) (by simp [Unbracketed])

namespace Unbracketed

variable {s t : List Char}

@[simp] theorem append_iff : Unbracketed (s ++ t) ↔ Unbracketed s ∧ Unbracketed t := by
  simp [Unbracketed, or_imp, forall_and]

theorem mono (h : Unbracketed t) (hst : ∀ c ∈ s, c ∈ t) : Unbracketed s :=
  fun c hc => h c (hst c hc)

theorem digits (n : Nat) : Unbracketed (toString n).toList := by
  intro c hc
  have hdigit : c.isDigit = true := by
    refine Nat.isDigit_of_mem_toDigits (b := 10) (by decide) (by decide) (n := n) ?_
    simpa [Nat.repr] using hc
  by_contra hb
  obtain rfl | rfl : c = '<' ∨ c = '>' := by simpa [isBracket, or_iff_not_imp_left] using hb
  all_goals exact absurd hdigit (by decide)

end Unbracketed

/-! ## Names without brackets -/

theorem isBracket_ofNat {n : Nat} (h : 64 < n) : isBracket (Char.ofNat n) = false := by
  by_contra hb
  have hsmall : (Char.ofNat n).toNat = 60 ∨ (Char.ofNat n).toNat = 62 := by
    obtain h | h : Char.ofNat n = '<' ∨ Char.ofNat n = '>' := by
      simpa [isBracket, or_iff_not_imp_left] using hb
    all_goals simp [h]
  by_cases hvalid : n.isValidChar
  · rw [Char.ofNat, dif_pos hvalid] at hsmall
    have hn : n = 60 ∨ n = 62 := hsmall
    omega
  · rw [Char.ofNat, dif_neg hvalid] at hsmall
    exact absurd hsmall (by decide)

theorem isBracket_lowerChar {endsWord : Bool} {c d : Char} (hc : isBracket c = false)
    (hd : d ∈ Text.lowerChar endsWord c) : isBracket d = false := by
  have hascii : ∀ n < 128, isBracket (Char.ofNat n) = false →
      isBracket (Char.ofNat n).toLower = false := by decide
  -- No step leads from above the ASCII characters down to a bracket.
  have hsteps : ∀ x ∈ Text.lowerSteps, 64 < (x.1 : Int) + x.2.2.2 := by decide +kernel
  unfold Text.lowerChar at hd
  dsimp only at hd
  split at hd
  · next hn =>
    obtain rfl := List.mem_singleton.1 hd
    simpa using hascii c.toNat hn (by simpa using hc)
  split at hd
  · simp only [List.mem_cons, List.not_mem_nil, or_false] at hd
    rcases hd with rfl | rfl <;> decide
  split at hd
  · obtain rfl := List.mem_singleton.1 hd
    cases endsWord <;> decide
  split at hd
  · next a b s k hfind =>
    obtain rfl := List.mem_singleton.1 hd
    have hstep := hsteps _ (Array.mem_of_find?_eq_some hfind)
    have hle : a ≤ c.toNat := by
      have h := Array.find?_some hfind
      simp only [Bool.and_eq_true, decide_eq_true_eq] at h
      exact h.1.1
    exact isBracket_ofNat (by dsimp only at hstep; omega)
  · obtain rfl := List.mem_singleton.1 hd
    exact hc

theorem Unbracketed.lowerChars {s : List Char} (h : Unbracketed s) : ∀ before,
    Unbracketed (Text.lowerChars before s) := by
  induction s with
  | nil => exact fun _ _ hc => absurd hc List.not_mem_nil
  | cons c s ih =>
    intro before
    rw [Text.lowerChars, append_iff]
    exact ⟨fun d hd => isBracket_lowerChar (h c List.mem_cons_self) hd,
      ih (fun d hd => h d (List.mem_cons_of_mem _ hd)) _⟩

namespace Naming

theorem mem_of_mem_splitOn {separator c : Char} {s w : List Char} (hw : w ∈ splitOn separator s)
    (hc : c ∈ w) : c ∈ s := by
  induction s generalizing w with
  | nil => simp_all [splitOn]
  | cons x s ih =>
    unfold splitOn at hw
    split at hw
    · obtain rfl := List.mem_singleton.1 hw
      exact List.mem_singleton.1 hc ▸ List.mem_cons_self
    · next v vs hs =>
      have hrest : ∀ u ∈ v :: vs, c ∈ u → c ∈ x :: s := fun u hu hcu =>
        List.mem_cons_of_mem _ (ih (hs ▸ hu) hcu)
      split at hw
      · rcases List.mem_cons.1 hw with rfl | hw
        · exact absurd hc List.not_mem_nil
        · exact hrest w hw hc
      · rcases List.mem_cons.1 hw with rfl | hw
        · rcases List.mem_cons.1 hc with rfl | hc
          · exact List.mem_cons_self
          · exact hrest v List.mem_cons_self hc
        · exact hrest w (List.mem_cons_of_mem _ hw) hc

theorem mem_of_mem_spaced {c : Char} {s : List Char} : ∀ {before}, c ∈ spaced before s →
    c = '_' ∨ c ∈ s := by
  induction s with
  | nil => exact fun h => absurd h List.not_mem_nil
  | cons x s ih =>
    intro before h
    rcases List.mem_append.1 h with h | h
    · split at h <;> simp only [List.mem_cons, List.not_mem_nil, or_false] at h ⊢ <;> tauto
    · exact (ih h).imp id (List.mem_cons_of_mem _)

theorem unbracketed_singularName {name : String} (h : Unbracketed name.toList) :
    Unbracketed (singularName name).toList := by
  have hlast : Unbracketed ((splitOn '.' name.toList).getLast?.getD []) := by
    cases hw : (splitOn '.' name.toList).getLast? with
    | none => exact fun _ hc => absurd hc List.not_mem_nil
    | some w => exact h.mono fun c hc => mem_of_mem_splitOn (List.mem_of_getLast? hw) hc
  rw [singularName, Text.lower, String.toList_ofList, String.toList_ofList]
  refine Unbracketed.lowerChars (fun c hc => ?_) none
  rcases mem_of_mem_spaced hc with rfl | hc
  · decide
  · exact hlast c hc

theorem unbracketed_plural {word w : List Char} (h : Unbracketed word)
    (hw : plural? word = some w) : Unbracketed w := by
  have hrules : ∀ r ∈ pluralRules, Unbracketed r.adds.toList := by decide
  unfold plural? at hw
  split at hw
  · cases hw
  split at hw <;> obtain rfl := Option.some.inj hw <;> rw [Unbracketed.append_iff]
  · next r hr =>
    exact ⟨h.mono fun c hc => List.mem_of_mem_take hc, hrules r (List.mem_of_find?_eq_some hr)⟩
  · refine ⟨h, fun c hc => ?_⟩
    obtain rfl := List.mem_singleton.1 hc
    split <;> decide

theorem unbracketed_pluralName {singular name : String} (h : Unbracketed singular.toList)
    (hname : pluralName? singular = some name) : Unbracketed name.toList := by
  obtain ⟨w, hw, rfl⟩ := Option.map_eq_some_iff.1 hname
  rw [String.toList_ofList, Unbracketed.append_iff]
  refine ⟨fun c hc => ?_, unbracketed_plural (h.mono fun c hc => ?_) hw⟩
  · split at hc
    · exact absurd hc List.not_mem_nil
    · exact h c (List.mem_of_mem_take hc)
  · exact List.mem_reverse.1 (List.takeWhile_sublist _ |>.mem (List.mem_reverse.1 hc))

end Naming

/-- No name that a type has or gives has a bracket in it. -/
structure ResourceType.Unbracketed (t : ResourceType) : Prop where
  name : Hypermedia.Unbracketed t.name.toList
  plural : ∀ p ∈ t.plural, Hypermedia.Unbracketed p.toList
  relationship : ∀ rel ∈ t.relationships, Hypermedia.Unbracketed rel.name.toList
  finder : ∀ f ∈ t.finders, Hypermedia.Unbracketed f.name.toList

namespace ResourceType.Unbracketed

variable {t : ResourceType} (h : t.Unbracketed)

include h

theorem pluralName : Hypermedia.Unbracketed t.pluralName.toList := by
  have hown : ∀ p, Naming.pluralName? t.singularName = some p → Hypermedia.Unbracketed p.toList :=
    fun p hp => Naming.unbracketed_pluralName (Naming.unbracketed_singularName h.name) hp
  unfold ResourceType.pluralName
  cases hp : t.pluralName? with
  | none => exact fun _ hc => by simp at hc
  | some p =>
    unfold ResourceType.pluralName? at hp
    split at hp
    · exact hown p hp
    · exact hown p hp
    · next hplural =>
      obtain rfl := Option.some.inj hp
      exact h.plural _ hplural

theorem paramName (params : List String) (depth : Nat) :
    Hypermedia.Unbracketed (Tree.paramName t params depth).toList := by
  have hname : Hypermedia.Unbracketed (t.singularName ++ "_id").toList := by
    rw [String.toList_append, Hypermedia.Unbracketed.append_iff]
    exact ⟨Naming.unbracketed_singularName h.name, by decide⟩
  unfold Tree.paramName
  dsimp only
  split
  · rw [String.toList_append, Hypermedia.Unbracketed.append_iff]
    exact ⟨hname, .digits depth⟩
  · exact hname

theorem branch {b : Tree.Branch} (hb : b ∈ Tree.branches t) :
    Hypermedia.Unbracketed b.name.toList := by
  simp only [Tree.branches, List.mem_append, List.mem_map] at hb
  rcases hb with ⟨rel, hrel, rfl⟩ | ⟨f, hf, rfl⟩
  · exact h.relationship rel (List.mem_filter.1 hrel).1
  · exact h.finder f hf

end ResourceType.Unbracketed

/-! ## Reading parameters -/

/-- The parameters that a spelled pattern names: in each pair of brackets what stands after the
colon. `inside` holds the characters after an open bracket so far. -/
def namedParams (inside : Option (List Char)) : List Char → List String
  | [] => []
  | c :: r =>
    match inside with
    | none => namedParams (if c == '<' then some [] else none) r
    | some w =>
      if c == '>' then String.ofList ((w.dropWhile (· != ':')).drop 1) :: namedParams none r
      else namedParams (some (w ++ [c])) r

/-- No piece of the pattern has a bracket in it. -/
def Pattern.Unbracketed (pattern : Pattern) : Prop :=
  ∀ x ∈ pattern, Hypermedia.Unbracketed
    (match x with
    | .text s => s.toList
    | .id p => p.toList)

theorem namedParams_text {s : List Char} (h : Unbracketed s) (r : List Char) :
    namedParams none (s ++ r) = namedParams none r := by
  induction s with
  | nil => rfl
  | cons c s ih =>
    have hc : (c == '<') = false := (Bool.or_eq_false_iff.1 (h c List.mem_cons_self)).1
    rw [List.cons_append, namedParams, hc]
    exact ih fun d hd => h d (List.mem_cons_of_mem _ hd)

theorem namedParams_inside {s : List Char} (h : Unbracketed s) (r : List Char) : ∀ w,
    namedParams (some w) (s ++ '>' :: r) =
      String.ofList (((w ++ s).dropWhile (· != ':')).drop 1) :: namedParams none r := by
  induction s with
  | nil => simp [namedParams]
  | cons c s ih =>
    intro w
    have hc : (c == '>') = false := (Bool.or_eq_false_iff.1 (h c List.mem_cons_self)).2
    rw [List.cons_append, namedParams, hc]
    simpa using ih (fun d hd => h d (List.mem_cons_of_mem _ hd)) (w ++ [c])

/-- The spelling of a pattern without brackets in its pieces names the parameters of the
pattern. -/
theorem namedParams_spelling {pattern : Pattern} (h : pattern.Unbracketed) :
    namedParams none pattern.spelling.toList = pattern.params := by
  rw [Pattern.spelling, String.toList_join]
  induction pattern with
  | nil => rfl
  | cons x pattern ih =>
    have hx := h x List.mem_cons_self
    have hrest := ih fun y hy => h y (List.mem_cons_of_mem _ hy)
    rw [List.map_cons, List.flatMap_cons]
    cases x with
    | text s => rw [PatternPiece.spelling, namedParams_text hx, hrest]; rfl
    | id p =>
      have hspelled : (PatternPiece.id p).spelling.toList =
          "/".toList ++ '<' :: ("rid:".toList ++ p.toList ++ ['>']) := by
        simp [PatternPiece.spelling, toString]
      rw [hspelled]
      simp only [List.append_assoc, List.cons_append, List.nil_append]
      rw [namedParams_text (by decide), namedParams]
      rw [← List.append_assoc]
      rw [if_pos (by decide), namedParams_inside]
      · rw [hrest]
        simp [Pattern.params, PatternPiece.param?]
      · rw [Unbracketed.append_iff]
        exact ⟨by decide, hx⟩

/-! ## The routes of a registry -/

namespace Tree

variable {r : Registry} (hr : ∀ t ∈ r.types, t.Unbracketed)

include hr

theorem unbracketed_branchPattern {p : Spot} (ht : p.scope.memberType ∈ r.types)
    (hp : p.entityPattern.Unbracketed) {b : Branch} (hb : b ∈ branches p.scope.memberType) :
    (p.branchPattern b.name).Unbracketed := by
  intro x hx
  rcases List.mem_append.1 hx with hx | hx
  · exact hp x hx
  · obtain rfl := List.mem_singleton.1 hx
    change Unbracketed ("/" ++ b.name).toList
    rw [String.toList_append, Unbracketed.append_iff]
    exact ⟨by decide, (hr _ ht).branch hb⟩

theorem unbracketed_foldl {xs : List Step} : ∀ {p : Spot}, p.scope.memberType ∈ r.types →
    p.entityPattern.Unbracketed → Follows r p.scope.memberType xs →
    (xs.foldl Spot.advance p).scope.memberType ∈ r.types ∧
      (xs.foldl Spot.advance p).entityPattern.Unbracketed := by
  induction xs with
  | nil => exact fun ht hp _ => ⟨ht, hp⟩
  | cons x xs ih =>
    intro p ht hp hfollows
    obtain ⟨hplace, -, htarget, hrest⟩ := hfollows
    have hmem : x.target ∈ r.types := Registry.resolve_mem htarget
    have hscope : (p.advance x).scope.memberType = x.target := memberType_childScope _ _ _ _
    refine ih (hscope ▸ hmem) (fun y hy => ?_) (hscope ▸ hrest)
    rcases List.mem_append.1 hy with hy | hy
    · exact unbracketed_branchPattern hr ht hp (List.mem_of_getElem? hplace) y hy
    · obtain rfl := List.mem_singleton.1 hy
      cases hx : x.branch <;> simpa [Spot.advance, hx, childScope, Scope.idParam] using
        (hr _ hmem).paramName _ _

/-- The patterns of the routes of a registry have no brackets in their pieces, except perhaps
that of the root. -/
theorem unbracketed_of_mem_routes {maxDepth : Int} {rootPath : String} {table : RouteTable}
    (h : routes r maxDepth rootPath = .ok table) {x : Route} (hx : x ∈ table.routes)
    (hkind : x.kind ≠ .root) : x.pattern.Unbracketed := by
  rcases (mem_routes h).1 hx with rfl | ⟨w, hw, hx⟩
  · exact absurd rfl hkind
  have hstart : w.start ∈ r.types := List.mem_of_getElem? hw.start
  have hfirst : (Spot.ofType w.start).entityPattern.Unbracketed := by
    intro y hy
    simp only [Spot.entityPattern, Spot.ofType, List.cons_append, List.nil_append, List.mem_cons,
      List.not_mem_nil, or_false] at hy
    rcases hy with rfl | rfl
    · change Unbracketed ("/" ++ w.start.pluralName).toList
      rw [String.toList_append, Unbracketed.append_iff]
      exact ⟨by decide, (hr _ hstart).pluralName⟩
    · exact (hr _ hstart).paramName [] 0
  obtain ⟨ht, hp⟩ : w.spot.scope.memberType ∈ r.types ∧ w.spot.entityPattern.Unbracketed :=
    unbracketed_foldl hr hstart hfirst hw.follows
  rcases List.mem_append.1 hx with hx | hx
  · simp only [ownRoutes, List.mem_cons, List.not_mem_nil, or_false] at hx
    rcases hx with rfl | rfl
    · exact fun y hy => hp y (List.mem_append_left _ hy)
    · exact hp
  · obtain ⟨rel, hrel, rfl⟩ := List.mem_map.1 hx
    refine unbracketed_branchPattern hr ht hp (b := .relationship rel) ?_
    exact List.mem_append_left _ (List.mem_map_of_mem (List.mem_filter.1 hrel).1)

end Tree

end Hypermedia
