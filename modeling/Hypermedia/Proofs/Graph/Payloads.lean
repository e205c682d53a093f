import Hypermedia.Graph.Payload
import Hypermedia.Proofs.Fields

/-!
# How payloads are mapped

A payload may describe new records, whose descriptions describe others. The bound on how deep
they stand inside each other is large enough: a description is mapped as a payload is that
stands alone (`WritableGraph.mapPayload_eq`). First the properties that clients may write are
given the values that the payload has for them (`WritableGraph.get?_mapProperties`).
-/

namespace Hypermedia

namespace Payload

/-! ## Depths -/

theorem fieldsDepth_lt_depth {v : Value} {fields : List (String × Value)}
    (h : description? v = some fields) : fieldsDepth fields < depth v := by
  cases v with
  | object fs =>
    simp only [description?] at h
    split at h
    · cases h
    · obtain rfl := Option.some.inj h
      exact Nat.lt_succ_self _
  | _ => cases h

theorem depth_le_itemsDepth {v : Value} {items : List Value} (h : v ∈ items) :
    depth v ≤ itemsDepth items := by
  induction items with
  | nil => cases h
  | cons w items ih =>
    rw [itemsDepth]
    rcases List.mem_cons.1 h with rfl | h
    · exact Nat.le_max_left _ _
    · exact Nat.le_trans (ih h) (Nat.le_max_right _ _)

theorem depth_le_fieldsDepth {name : String} {v : Value} {fields : List (String × Value)}
    (h : Fields.get? name fields = some v) : depth v ≤ fieldsDepth fields := by
  obtain ⟨f, hfind, rfl⟩ := Option.map_eq_some_iff.1 h
  replace hfind := List.mem_of_find?_eq_some hfind
  clear h
  induction fields with
  | nil => cases hfind
  | cons g fields ih =>
    rw [fieldsDepth]
    rcases List.mem_cons.1 hfind with rfl | hfind
    · exact Nat.le_max_left _ _
    · exact Nat.le_trans (ih hfind) (Nat.le_max_right _ _)

/-- What a payload says about a relationship is one of its fields. -/
theorem get?_of_about {rel : Relationship} {fields : List (String × Value)} {key : String}
    {v : Value} {mayDescribe : Bool} (h : about rel fields = some (key, v, mayDescribe)) :
    Fields.get? key fields = some v := by
  unfold about at h
  split at h
  · next w hw =>
    obtain ⟨rfl, hv⟩ := Prod.mk.inj (Option.some.inj h)
    rw [hw, (Prod.mk.inj hv).1]
  · obtain ⟨w, hw, heq⟩ := Option.map_eq_some_iff.1 h
    obtain ⟨rfl, hv⟩ := Prod.mk.inj heq
    rw [hw, (Prod.mk.inj hv).1]

end Payload

/-! ## Mappings that agree on what is inside -/

namespace WritableGraph

variable {m : Type → Type} [Monad m] [MonadExceptOf Fault m] {R : Type} (w : WritableGraph m R)
  {nested nested' : Mapping m R}

theorem resolve_congr {v : Value} (h : ∀ t fields, Payload.fieldsDepth fields < Payload.depth v →
      nested t fields = nested' t fields) (target : ResourceType) (key : String)
    (mayDescribe : Bool) (inverse : Option String) (errors : Errors) :
    w.resolve nested target key mayDescribe inverse v errors =
      w.resolve nested' target key mayDescribe inverse v errors := by
  unfold resolve
  split
  · next fields hfields =>
    have hdescribed : Payload.description? v = some fields := by
      split at hfields
      · exact hfields
      · cases hfields
    unfold describe
    rw [h target fields (Payload.fieldsDepth_lt_depth hdescribed)]
  · rfl

theorem resolveAll_congr {items : List Value}
    (h : ∀ t fields, Payload.fieldsDepth fields < Payload.itemsDepth items →
      nested t fields = nested' t fields) (target : ResourceType) (key : String)
    (mayDescribe : Bool) (inverse : Option String) (errors : Errors) :
    w.resolveAll nested target key mayDescribe inverse items errors =
      w.resolveAll nested' target key mayDescribe inverse items errors := by
  induction items generalizing errors with
  | nil => rfl
  | cons v items ih =>
    have hhead : ∀ t fields, Payload.fieldsDepth fields < Payload.depth v →
        nested t fields = nested' t fields := fun t fields hlt =>
      h t fields (Nat.lt_of_lt_of_le hlt (Payload.depth_le_itemsDepth List.mem_cons_self))
    have htail : ∀ t fields, Payload.fieldsDepth fields < Payload.itemsDepth items →
        nested t fields = nested' t fields := fun t fields hlt =>
      h t fields (Nat.lt_of_lt_of_le hlt (Nat.le_max_right _ _))
    unfold resolveAll
    rw [w.resolve_congr hhead]
    simp only [ih htail]

theorem mapRelationship_congr {fields : List (String × Value)}
    (h : ∀ t inner, Payload.fieldsDepth inner < Payload.fieldsDepth fields →
      nested t inner = nested' t inner) :
    w.mapRelationship nested fields = w.mapRelationship nested' fields := by
  funext p rel
  unfold mapRelationship
  refine bind_congr fun target => ?_
  cases habout : Payload.about rel fields with
  | none => rfl
  | some x =>
    obtain ⟨key, v, mayDescribe⟩ := x
    have hle := Payload.depth_le_fieldsDepth (Payload.get?_of_about habout)
    have hone : ∀ t inner, Payload.fieldsDepth inner < Payload.depth v →
        nested t inner = nested' t inner := fun t inner hlt =>
      h t inner (Nat.lt_of_lt_of_le hlt hle)
    dsimp only
    rw [w.resolve_congr hone]
    cases v with
    | list items =>
      have hmany : ∀ t inner, Payload.fieldsDepth inner < Payload.itemsDepth items →
          nested t inner = nested' t inner := fun t inner hlt =>
        hone t inner (Nat.lt_of_lt_of_le hlt (Nat.le_succ _))
      dsimp only
      rw [w.resolveAll_congr hmany]
    | _ => rfl

/-- More than the depth of a payload is enough. -/
theorem mapFields_eq {fuel : Nat} {fields : List (String × Value)}
    (h : Payload.fieldsDepth fields < fuel) (t : ResourceType) :
    w.mapFields fuel t fields = w.mapPayload t fields := by
  have hcongr : ∀ fuel fuel' (t : ResourceType) (fields : List (String × Value)),
      Payload.fieldsDepth fields < fuel → Payload.fieldsDepth fields < fuel' →
      w.mapFields fuel t fields = w.mapFields fuel' t fields := by
    intro fuel
    induction fuel with
    | zero => exact fun _ _ _ h => absurd h (Nat.not_lt_zero _)
    | succ fuel ih =>
      intro fuel' t fields h h'
      cases fuel' with
      | zero => exact absurd h' (Nat.not_lt_zero _)
      | succ fuel' =>
        rw [mapFields, mapFields, w.mapRelationship_congr fun t inner hlt =>
          ih fuel' t inner (by omega) (by omega)]
  exact hcongr fuel _ t fields h (Nat.lt_succ_self _)

/-- A payload gives values to properties, and then to one relationship after the other; the
descriptions inside are mapped like payloads of their own. -/
theorem mapPayload_eq (t : ResourceType) (fields : List (String × Value)) :
    w.mapPayload t fields = t.writableRelationships.foldlM
      (w.mapRelationship w.mapPayload fields) (mapProperties t fields) := by
  rw [mapPayload, mapFields, w.mapRelationship_congr fun t inner hlt => w.mapFields_eq hlt t]

/-! ## Properties -/

theorem errors_mapProperties (t : ResourceType) (fields : List (String × Value)) :
    (mapProperties t fields : Payload R).errors = [] := by
  refine List.foldlRecOn (motive := fun q : Payload R => q.errors = []) _ _ rfl fun q hq p _ => ?_
  split
  · exact hq
  · exact hq

/-- A property that clients may write is given the value that the payload has for it. -/
theorem get?_mapProperties {t : ResourceType} {fields : List (String × Value)} {p : Property}
    (hp : p ∈ t.writableProperties) {v : Value} (hv : Fields.get? p.name fields = some v) :
    Fields.get? p.name (mapProperties t fields : Payload R).given = some (.value v) := by
  obtain ⟨before, after, hsplit⟩ := List.append_of_mem hp
  unfold mapProperties
  rw [hsplit, List.foldl_append, List.foldl_cons]
  refine List.foldlRecOn (motive := fun q : Payload R =>
    Fields.get? p.name q.given = some (.value v)) _ _ ?_ fun q hq x _ => ?_
  · simp only [hv, Payload.give, Fields.get?_put, if_pos]
  · split
    · next w hw =>
      rw [Payload.give, Fields.get?_put]
      split
      · next hname =>
        rw [← hname, hv] at hw
        rw [Option.some.inj hw]
      · exact hq
    · exact hq

end WritableGraph

end Hypermedia
