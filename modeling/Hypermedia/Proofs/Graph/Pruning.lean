import Hypermedia.Proofs.Graph.Referring

/-!
# What is ignored in payloads

A payload can be pruned (`Payload.prune`): its unknown fields are left out, at every depth; a
reference is reduced to its id; and of what describes a new record there stays what describes one
of the type that the relationship leads to. Nothing of what is pruned counts: the payload is mapped
as before, with the same effects (`WritableGraph.mapPayload_prune`).

An id that is nothing, or an object, needs the object around it: alone it would not be read as an
id (`WritableGraph.null_not_reduced`).
-/

namespace Hypermedia

namespace Payload

/-! ## Pruning -/

/-- What is left of a reference: the id. Alone, nothing and objects would not be read as ids. -/
def reference (isAlone : Bool) : Value → Value
  | .object fields => .object [("id", .object fields)]
  | .null => if isAlone then .object [("id", .null)] else .null
  | id => id

/-- What the field of a payload is for. -/
inductive Use where
  /-- The field counts as it is. -/
  | value
  /-- The field is ignored. -/
  | nothing
  /-- The field gives one record, of one of these types. -/
  | one (targets : List ResourceType)
  /-- The field gives many records, each of one of these types. -/
  | many (targets : List ResourceType)

/-- The relationships that a field of a payload gives something to, by their names or by the names
for ids; those of which the payload has the names are given nothing by ids. -/
def served (ts : List ResourceType) (names : List String) (key : String) : List Relationship :=
  (ts.flatMap ResourceType.writableRelationships).filter fun rel =>
    rel.name == key || (idsName rel == key && !names.contains rel.name)

/-- What a field is for, in a payload that has these names and is one of each of these types.
A field that gives a value, and one that gives one record as well as many, count as they are. -/
def use (registry : Registry) (ts : List ResourceType) (names : List String) (key : String) : Use :=
  let rels := served ts names key
  let targets := rels.filterMap fun rel => (registry.resolve rel.target).toOption
  if ts.any fun t => t.writableProperties.any fun p => p.name == key then .value
  else if rels.isEmpty then .nothing
  else if rels.all Relationship.isMany then .many targets
  else if rels.any Relationship.isMany then .value
  else .one targets

mutual

/-- What is left of a value that means a record of each of these types. -/
def pruneRecord (registry : Registry) (isAlone : Bool) (ts : List ResourceType) : Value → Value
  | .object fields =>
    match Fields.get? "id" fields with
    | some id => reference isAlone id
    | none => .object (pruneFields registry ts (fields.map Prod.fst) fields)
  | v => v

/-- What is left of values that mean records. -/
def pruneRecords (registry : Registry) (ts : List ResourceType) : List Value → List Value
  | [] => []
  | v :: vs => pruneRecord registry false ts v :: pruneRecords registry ts vs

/-- What is left of a value that means many records. Only a list does. -/
def pruneMany (registry : Registry) (ts : List ResourceType) : Value → Value
  | .list items => .list (pruneRecords registry ts items)
  | v => v

/-- What is left of fields, of a payload that has these names. -/
def pruneFields (registry : Registry) (ts : List ResourceType) (names : List String) :
    List (String × Value) → List (String × Value)
  | [] => []
  | (key, v) :: fields =>
    match use registry ts names key with
    | .value => (key, v) :: pruneFields registry ts names fields
    | .nothing => pruneFields registry ts names fields
    | .one targets =>
      (key, pruneRecord registry true targets v) :: pruneFields registry ts names fields
    | .many targets => (key, pruneMany registry targets v) :: pruneFields registry ts names fields

end

/-- What is left of a payload that is one of each of these types. -/
def pruneAs (registry : Registry) (ts : List ResourceType) (fields : List (String × Value)) :
    List (String × Value) := pruneFields registry ts (fields.map Prod.fst) fields

/-- What counts of a payload. -/
def prune (registry : Registry) (t : ResourceType) (fields : List (String × Value)) :
    List (String × Value) := pruneAs registry [t] fields

/-- What is left of the value of a field. -/
def Use.prune? (registry : Registry) (v : Value) : Use → Option Value
  | .value => some v
  | .nothing => none
  | .one targets => some (pruneRecord registry true targets v)
  | .many targets => some (pruneMany registry targets v)

variable {registry : Registry} {ts : List ResourceType} {names : List String}
  {fields : List (String × Value)}

/-! ## What is found in pruned payloads -/

theorem get?_pruneFields (key : String) : Fields.get? key (pruneFields registry ts names fields) =
    (Fields.get? key fields).bind fun v => (use registry ts names key).prune? registry v := by
  induction fields with
  | nil => rfl
  | cons f fields ih =>
    obtain ⟨k, v⟩ := f
    by_cases hk : k = key
    · subst hk
      have hnone : use registry ts names k = .nothing →
          Fields.get? k (pruneFields registry ts names fields) = none := fun hnothing => by
        rw [ih, hnothing]
        cases Fields.get? k fields <;> rfl
      cases huse : use registry ts names k with
      | nothing => simpa [pruneFields, huse, Fields.get?, Use.prune?] using hnone huse
      | _ => simp [pruneFields, huse, Fields.get?, Use.prune?]
    · have hskip : ∀ (w : Value) fs, Fields.get? key ((k, w) :: fs) = Fields.get? key fs :=
        fun w fs => by simp [Fields.get?, hk]
      rw [hskip, ← ih]
      cases huse : use registry ts names k with
      | nothing => simp only [pruneFields, huse]
      | _ => simp only [pruneFields, huse, hskip]

/-- Pruning gives a payload no id. -/
theorem get?_id_pruneFields (h : Fields.get? "id" fields = none) :
    Fields.get? "id" (pruneFields registry ts names fields) = none := by
  rw [get?_pruneFields, h]
  rfl

/-- What is left of a payload are the properties that clients may write and the relationships that
they may change, given by their names or by ids alone. -/
theorem known_of_mem_prune {t : ResourceType} {key : String}
    (h : key ∈ (prune registry t fields).map Prod.fst) :
    (∃ p ∈ t.writableProperties, p.name = key) ∨
    ∃ rel ∈ t.writableRelationships, rel.name = key ∨
      (idsName rel = key ∧ rel.name ∉ fields.map Prod.fst) := by
  obtain ⟨v, hv⟩ := Option.isSome_iff_exists.1 (Fields.get?_isSome_iff.2 h)
  rw [prune, pruneAs, get?_pruneFields] at hv
  obtain ⟨v', -, hv'⟩ := Option.bind_eq_some_iff.1 hv
  by_contra hunknown
  rw [not_or] at hunknown
  obtain ⟨hproperty, hrelationship⟩ := hunknown
  have hvalue : ([t].any fun t => t.writableProperties.any fun p => p.name == key) = false := by
    simpa using hproperty
  have hserved : (served [t] (fields.map Prod.fst) key).isEmpty = true := by
    rw [List.isEmpty_iff, served, List.filter_eq_nil_iff]
    intro rel hrel hserves
    refine hrelationship ⟨rel, by simpa using hrel, ?_⟩
    simpa using hserves
  have huse : use registry [t] (fields.map Prod.fst) key = .nothing := by
    simp only [use, hvalue, hserved, Bool.false_eq_true, if_false, if_true]
  rw [huse] at hv'
  cases hv'

/-! ## What records mean -/

theorem description?_reference (isAlone : Bool) (id : Value) :
    description? (reference isAlone id) = none := by
  cases id with
  | null => cases isAlone <;> rfl
  | _ => rfl

theorem referredId_reference (isAlone : Bool) (id : Value) :
    referredId (reference isAlone id) = id := by
  cases id with
  | null => cases isAlone <;> rfl
  | _ => rfl

/-- What describes a new record still does, pruned. -/
theorem description?_pruneRecord (isAlone : Bool) (v : Value) :
    description? (pruneRecord registry isAlone ts v) =
      (description? v).map (pruneAs registry ts) := by
  cases v with
  | object fields =>
    unfold pruneRecord
    split
    · next id hid =>
      rw [description?_reference]
      simp [description?, Fields.contains, hid]
    · next hid => simp [description?, Fields.contains, hid, get?_id_pruneFields hid, pruneAs]
  | _ => simp [pruneRecord, description?]

/-- A reference still refers to the same record. -/
theorem referredId_pruneRecord (isAlone : Bool) (v : Value) :
    referredId (pruneRecord registry isAlone ts v) = referredId v := by
  cases v with
  | object fields =>
    unfold pruneRecord
    split
    · next id hid =>
      rw [referredId_reference, referredId, hid]
      rfl
    · next hid => rw [referredId, referredId, get?_id_pruneFields hid, hid]
  | _ => simp only [pruneRecord]

theorem isNull_pruneRecord (v : Value) : (pruneRecord registry true ts v).isNull = v.isNull := by
  cases v with
  | object fields =>
    unfold pruneRecord
    split
    · next id _ => cases id <;> rfl
    · rfl
  | _ => rfl

/-! ## What fields are for -/

/-- A field that gives a value counts as it is. -/
theorem use_property {t : ResourceType} (ht : t ∈ ts) {p : Property}
    (hp : p ∈ t.writableProperties) : use registry ts names p.name = .value := by
  have hany : (ts.any fun t => t.writableProperties.any fun q => q.name == p.name) = true :=
    List.any_eq_true.2 ⟨t, ht, List.any_eq_true.2 ⟨p, hp, by simp⟩⟩
  simp only [use, hany, if_true]

/-- The field is for a relationship: it counts as it is, or it gives one record or many, as the
relationship does, of the type that the relationship leads to. -/
inductive Serves (registry : Registry) (rel : Relationship) : Use → Prop
  | value : Serves registry rel .value
  | one {targets} : rel.isMany = false →
      (∀ target, registry.resolve rel.target = .ok target → target ∈ targets) →
      Serves registry rel (.one targets)
  | many {targets} : rel.isMany = true →
      (∀ target, registry.resolve rel.target = .ok target → target ∈ targets) →
      Serves registry rel (.many targets)

variable (registry) in
theorem serves_use {rel : Relationship} {key : String} (h : rel ∈ served ts names key) :
    Serves registry rel (use registry ts names key) := by
  have htargets : ∀ target, registry.resolve rel.target = .ok target →
      target ∈ (served ts names key).filterMap fun rel => (registry.resolve rel.target).toOption :=
    fun target htarget => List.mem_filterMap.2 ⟨rel, h, by rw [htarget]; rfl⟩
  unfold use
  dsimp only
  split
  · exact .value
  · split
    · next hempty => exact absurd (List.isEmpty_iff.1 hempty) (List.ne_nil_of_mem h)
    · split
      · next hall => exact .many (List.all_eq_true.1 hall rel h) htargets
      · split
        · exact .value
        · next hany =>
          have hone : ∀ rel' ∈ served ts names key, rel'.isMany = false := by simpa using hany
          exact .one (hone rel h) htargets

variable (registry fields) in
/-- A payload says as much about a relationship as before, about what is left. -/
theorem about_pruneAs {t : ResourceType} (ht : t ∈ ts) {rel : Relationship}
    (hrel : rel ∈ t.writableRelationships) :
    (about rel fields = none ∧ about rel (pruneAs registry ts fields) = none) ∨
    ∃ key v mayDescribe u w, about rel fields = some (key, v, mayDescribe) ∧
      Serves registry rel u ∧ u.prune? registry v = some w ∧
      about rel (pruneAs registry ts fields) = some (key, w, mayDescribe) := by
  have hmem : rel ∈ ts.flatMap ResourceType.writableRelationships :=
    List.mem_flatMap.2 ⟨t, ht, hrel⟩
  have hsome : ∀ {u : Use} (v : Value), Serves registry rel u →
      ∃ w, u.prune? registry v = some w := fun v hu => by
    cases hu with
    | value => exact ⟨_, rfl⟩
    | one => exact ⟨_, rfl⟩
    | many => exact ⟨_, rfl⟩
  cases hname : Fields.get? rel.name fields with
  | some v =>
    have hserved : rel ∈ served ts (fields.map Prod.fst) rel.name :=
      List.mem_filter.2 ⟨hmem, by simp⟩
    have hserves := serves_use registry hserved
    obtain ⟨w, hw⟩ := hsome v hserves
    refine .inr ⟨rel.name, v, true, _, w, ?_, hserves, hw, ?_⟩
    · rw [about, hname]
    · rw [about, pruneAs, get?_pruneFields, hname, Option.bind_some, hw]
  | none =>
    have hunnamed : rel.name ∉ fields.map Prod.fst := fun hin => by
      simpa [hname] using Fields.get?_isSome_iff.2 hin
    have hserved : rel ∈ served ts (fields.map Prod.fst) (idsName rel) :=
      List.mem_filter.2 ⟨hmem, by simp [hunnamed]⟩
    have hserves := serves_use registry hserved
    have hpruned : about rel (pruneAs registry ts fields) =
        ((Fields.get? (idsName rel) fields).bind fun v =>
          (use registry ts (fields.map Prod.fst) (idsName rel)).prune? registry v).map
            fun v => (idsName rel, v, false) := by
      rw [about, pruneAs, get?_pruneFields, hname, Option.bind_none, get?_pruneFields]
    cases hids : Fields.get? (idsName rel) fields with
    | none =>
      refine .inl ⟨?_, ?_⟩
      · rw [about, hname, hids]
        rfl
      · rw [hpruned, hids]
        rfl
    | some v =>
      obtain ⟨w, hw⟩ := hsome v hserves
      refine .inr ⟨idsName rel, v, false, _, w, ?_, hserves, hw, ?_⟩
      · rw [about, hname, hids]
        rfl
      · rw [hpruned, hids, Option.bind_some, hw]
        rfl

end Payload

namespace WritableGraph

open Effect Payload

/-! ## Mapping what is left -/

theorem mapProperties_pruneAs {R : Type} {registry : Registry} {ts : List ResourceType}
    {t : ResourceType} (ht : t ∈ ts) (fields : List (String × Value)) :
    (mapProperties t (pruneAs registry ts fields) : Payload R) = mapProperties t fields := by
  refine List.foldl_ext _ _ _ fun q p hp => ?_
  rw [pruneAs, get?_pruneFields, use_property ht hp]
  cases Fields.get? p.name fields <;> rfl

variable {σ R : Type} (w : WritableGraph (Effect σ) R) {ts : List ResourceType}
  {target : ResourceType}

/-- What describes new records of these types inside of a value is mapped as before. -/
def MapsPruned (bound : Nat) : Prop :=
  ∀ fields, fieldsDepth fields < bound → ∀ ts, ∀ t ∈ ts,
    w.mapPayload t (pruneAs w.registry ts fields) = w.mapPayload t fields

variable {w}

theorem resolve_pruneRecord {v : Value} (h : w.MapsPruned (depth v)) (ht : target ∈ ts)
    (isAlone : Bool) (key : String) (mayDescribe : Bool) (inverse : Option String)
    (errors : Errors) :
    w.resolve w.mapPayload target key mayDescribe inverse
        (pruneRecord w.registry isAlone ts v) errors =
      w.resolve w.mapPayload target key mayDescribe inverse v errors := by
  have hrefer : ∀ errors, w.refer target key (pruneRecord w.registry isAlone ts v) errors =
      w.refer target key v errors := fun errors => by
    rw [refer, referredId_pruneRecord]
    rfl
  unfold resolve
  rw [description?_pruneRecord]
  cases mayDescribe with
  | false => exact hrefer errors
  | true =>
    cases hdescription : description? v with
    | none => exact hrefer errors
    | some inner =>
      simp only [if_true, Option.map_some]
      unfold describe
      rw [h inner (fieldsDepth_lt_depth hdescription) ts target ht]

theorem resolveAll_pruneRecords {items : List Value} (h : w.MapsPruned (itemsDepth items))
    (ht : target ∈ ts) (key : String) (mayDescribe : Bool) (inverse : Option String)
    (errors : Errors) :
    w.resolveAll w.mapPayload target key mayDescribe inverse
        (pruneRecords w.registry ts items) errors =
      w.resolveAll w.mapPayload target key mayDescribe inverse items errors := by
  induction items generalizing errors with
  | nil => rfl
  | cons v items ih =>
    have hhead : w.MapsPruned (depth v) := fun fields hlt =>
      h fields (Nat.lt_of_lt_of_le hlt (depth_le_itemsDepth List.mem_cons_self))
    have htail : w.MapsPruned (itemsDepth items) := fun fields hlt =>
      h fields (Nat.lt_of_lt_of_le hlt (Nat.le_max_right _ _))
    rw [pruneRecords, resolveAll, resolveAll, resolve_pruneRecord hhead ht]
    simp only [ih htail]

/-- The same is given to a relationship. -/
theorem mapRelationship_pruneAs {fields : List (String × Value)}
    (h : w.MapsPruned (fieldsDepth fields)) {t : ResourceType} (ht : t ∈ ts) {rel : Relationship}
    (hrel : rel ∈ t.writableRelationships) (p : Payload R) :
    w.mapRelationship w.mapPayload (pruneAs w.registry ts fields) p rel =
      w.mapRelationship w.mapPayload fields p rel := by
  unfold mapRelationship
  cases htarget : w.registry.resolve rel.target with
  | error f => rfl
  | ok target =>
    simp only [MonadExcept.ofExcept, pure_bind]
    rcases about_pruneAs w.registry fields ht hrel with
      ⟨habout, hpruned⟩ | ⟨key, v, mayDescribe, u, x, habout, hserves, hx, hpruned⟩
    · rw [habout, hpruned]
    · rw [habout, hpruned]
      have hdepth := depth_le_fieldsDepth (get?_of_about habout)
      have hone : w.MapsPruned (depth v) := fun inner hlt => h inner (Nat.lt_of_lt_of_le hlt hdepth)
      cases hserves with
      | value =>
        obtain rfl := Option.some.inj hx
        rfl
      | one hsingle htargets =>
        obtain rfl := Option.some.inj hx
        have htarget' := htargets target htarget
        simp only [hsingle, Bool.false_eq_true, if_false, isNull_pruneRecord,
          resolve_pruneRecord hone htarget']
      | many hmany htargets =>
        obtain rfl := Option.some.inj hx
        have htarget' := htargets target htarget
        simp only [hmany, if_true]
        cases v with
        | list items =>
          have hitems : w.MapsPruned (itemsDepth items) := fun inner hlt =>
            hone inner (Nat.lt_of_lt_of_le hlt (Nat.le_succ _))
          simp only [pruneMany, resolveAll_pruneRecords hitems htarget']
        | _ => rfl

/-- Nothing but what is left counts, whichever of the types the payload is one of. -/
theorem mapPayload_pruneAs (bound : Nat) : w.MapsPruned bound := by
  induction bound with
  | zero => exact fun _ hlt => absurd hlt (Nat.not_lt_zero _)
  | succ bound ih =>
    intro fields hlt ts t ht
    have hinner : w.MapsPruned (fieldsDepth fields) := fun inner hinner =>
      ih inner (Nat.lt_of_lt_of_le hinner (Nat.le_of_lt_succ hlt))
    rw [mapPayload_eq, mapPayload_eq, mapProperties_pruneAs ht]
    exact foldlM_congr (fun rel hrel p => mapRelationship_pruneAs hinner ht hrel p) _

variable (w) in
/-- What is pruned of a payload does not count, at any depth: the payload gives the same, with the
same errors, and has the same effects. -/
theorem mapPayload_prune (t : ResourceType) (fields : List (String × Value)) :
    w.mapPayload t (prune w.registry t fields) = w.mapPayload t fields :=
  mapPayload_pruneAs _ fields (Nat.lt_succ_self _) [t] t List.mem_cons_self

/-- Cards have one tag. -/
def card : ResourceType :=
  { name := "Card"
    relationships := [{ name := "tag", target := .named "Tag", cardinality := .one }] }

/-- A desk with cards. -/
def cards : WritableGraph (Effect (List Value)) Nat :=
  { desk with registry := (desk.registry.register card).1 }

/-- Of a card with a tag that is known there is left its id, and of one with a new tag the name. -/
example : prune cards.registry card
      [("size", .int 7), ("tag", .object [("id", .int 1), ("name", .text "red")])] =
        [("tag", .int 1)] ∧
    prune cards.registry card [("tag", .object [("name", .text "red"), ("size", .int 7)])] =
      [("tag", .object [("name", .text "red")])] := ⟨rfl, rfl⟩

/-- A reference to nothing is an error, and nothing is none. -/
theorem null_not_reduced :
    cards.mapPayload card [("tag", .object [("id", .null)])] ≠
      cards.mapPayload card [("tag", .null)] := by
  intro heq
  have herrors : ∃ p z, Gives (cards.mapPayload card [("tag", .object [("id", .null)])]) [] p z ∧
      p.errors ≠ [] :=
  ⟨⟨[("tag", .value .null)], [("tag", ["Tag None not found"])]⟩, [], rfl, nofun⟩
  have hnone : Gives (cards.mapPayload card [("tag", .null)]) [] ⟨[("tag", .value .null)], []⟩ [] :=
    rfl
  obtain ⟨p, z, hp, hne⟩ := herrors
  rw [heq] at hp
  exact hne (by rw [(hp.unique hnone).1])

end WritableGraph

end Hypermedia
