import Hypermedia.Proofs.Effect
import Hypermedia.Proofs.Graph.Payloads
import Hypermedia.Proofs.Schema.Inheriting
import Hypermedia.Proofs.Validation.Merging

/-!
# No reference is lost

A payload gives records to relationships, by ids and by descriptions of new records, which may
give others in turn (`WritableGraph.Consumes`). Each of these items is come to in some state of
the storage (`WritableGraph.Visits`), and there it means a record (`WritableGraph.Means`), or it
is lost (`WritableGraph.IsLost`). If the mapping of a payload notes no errors, then every
relationship is given the records that its items mean; and if an item is lost, at any depth,
there is an error (`WritableGraph.mapPayload_loses_nothing`).
-/

namespace Hypermedia

open Effect

/-- A value that is given to a relationship: the type that the relationship leads to, whether the
value may describe a new record, and the relationship that leads back. -/
structure Payload.Item where
  target : ResourceType
  mayDescribe : Bool
  inverse : Option String
  value : Value

/-- The fields of the new record that an item describes. -/
def Payload.Item.description? (x : Payload.Item) : Option (List (String × Value)) :=
  if x.mayDescribe then Payload.description? x.value else none

namespace WritableGraph

variable {σ R : Type} (w : WritableGraph (Effect σ) R)

/-- The items of a payload: those that it gives to writable relationships, and those inside of
descriptions. -/
inductive Consumes : ResourceType → List (String × Value) → Payload.Item → Prop
  | many {t fields rel target key items mayDescribe v} :
      rel ∈ t.writableRelationships → rel.isMany = true →
      w.registry.resolve rel.target = .ok target →
      Payload.about rel fields = some (key, .list items, mayDescribe) → v ∈ items →
      Consumes t fields ⟨target, mayDescribe, rel.inverse, v⟩
  | one {t fields rel target key mayDescribe v} :
      rel ∈ t.writableRelationships → rel.isMany = false →
      w.registry.resolve rel.target = .ok target →
      Payload.about rel fields = some (key, v, mayDescribe) → v.isNull = false →
      Consumes t fields ⟨target, mayDescribe, rel.inverse, v⟩
  | inside {t fields x inner y} : Consumes t fields x → x.description? = some inner →
      x.target.isAbstract = false → Consumes x.target inner y → Consumes t fields y

/-- The mapping of a payload from a state comes to a relationship, with this payload and in this
state. -/
def Arrives (s : σ) (t : ResourceType) (fields : List (String × Value)) (rel : Relationship)
    (p : Payload R) (u : σ) : Prop :=
  ∃ before after, t.writableRelationships = before ++ rel :: after ∧
    Gives (before.foldlM (w.mapRelationship w.mapPayload fields) (mapProperties t fields)) s p u

/-- The mapping of a payload from a state comes to an item, in this state. -/
inductive Visits : σ → ResourceType → List (String × Value) → Payload.Item → σ → Prop
  | many {s t fields rel p u target key ahead v behind mayDescribe found z} :
      w.Arrives s t fields rel p u → rel.isMany = true →
      w.registry.resolve rel.target = .ok target →
      Payload.about rel fields = some (key, .list (ahead ++ v :: behind), mayDescribe) →
      Gives (w.resolveAll w.mapPayload target key mayDescribe rel.inverse ahead p.errors) u
        found z →
      Visits s t fields ⟨target, mayDescribe, rel.inverse, v⟩ z
  | one {s t fields rel p u target key mayDescribe v} :
      w.Arrives s t fields rel p u → rel.isMany = false →
      w.registry.resolve rel.target = .ok target →
      Payload.about rel fields = some (key, v, mayDescribe) → v.isNull = false →
      Visits s t fields ⟨target, mayDescribe, rel.inverse, v⟩ u
  | inside {s t fields x u inner y z} : Visits s t fields x u → x.description? = some inner →
      x.target.isAbstract = false → Visits u x.target inner y z → Visits s t fields y z

/-- An item means a record: the one that is found, or a new one that is built. -/
inductive Means (x : Payload.Item) (s : σ) : R → Prop
  | found {e u} : x.description? = none →
      Gives (w.graph.lookup x.target (Payload.referredId x.value)) s (some e) u →
      Means x s e.record
  | built {inner p u r z} : x.description? = some inner → x.target.isAbstract = false →
      Gives (w.mapPayload x.target inner) s p u → p.errors = [] →
      Gives (w.store.build x.target p.given) u r z → Means x s r

/-- An item is lost: nothing is found, there are no records of the type, or something else is
wrong with the new record than the relationship that leads back. -/
inductive IsLost (x : Payload.Item) (s : σ) : Prop
  | missing {u} : x.description? = none →
      Gives (w.graph.lookup x.target (Payload.referredId x.value)) s none u → IsLost x s
  | isAbstract {inner} : x.description? = some inner → x.target.isAbstract = true → IsLost x s
  | faulty {inner p s₁ r s₂ first s₃ more s₄ field} : x.description? = some inner →
      x.target.isAbstract = false → Gives (w.mapPayload x.target inner) s p s₁ →
      Gives (w.store.build x.target p.given) s₁ r s₂ →
      Gives ((w.graph.entity r x.target).errors w.graph .default) s₂ first s₃ →
      Gives ((w.graph.entity r x.target).errors w.graph .create) s₃ more s₄ →
      field ∈ first.map Prod.fst ∨ field ∈ more.map Prod.fst → some field ≠ x.inverse →
      IsLost x s

/-- What comes of an item in a state, with the errors before and after it. -/
structure Resolved (x : Payload.Item) (key : String) (s : σ) (es : Errors) (o : Option R)
    (es' : Errors) : Prop where
  kept : es' = [] → es = []
  keys : ∀ name ∈ es'.map Prod.fst, name = key ∨ name ∈ es.map Prod.fst
  means : es' = [] → ∃ r, o = some r ∧ w.Means x s r
  noted : w.IsLost x s → es' ≠ []
  inside : ∀ inner, x.description? = some inner → x.target.isAbstract = false → ∃ p u,
    Gives (w.mapPayload x.target inner) s p u ∧ (es' = [] → p.errors = [])

variable {w}

/-! ## One item -/

/-- A new record without errors has none by default and on creation, apart from those of the
relationship that leads back. -/
theorem exists_errors_of_newErrors {e : Entity R} {inverse : Option String} {s t : σ}
    {own : Errors} (h : Gives (w.newErrors e inverse) s own t) : ∃ first u more,
      Gives (e.errors w.graph .default) s first u ∧ Gives (e.errors w.graph .create) u more t ∧
        (own = [] → ∀ field, field ∈ first.map Prod.fst ∨ field ∈ more.map Prod.fst →
          some field = inverse) := by
  obtain ⟨first, u, hfirst, h⟩ := gives_bind.1 h
  obtain ⟨more, v, hmore, h⟩ := gives_bind.1 h
  obtain ⟨rfl, rfl⟩ := gives_pure.1 h
  refine ⟨first, u, more, hfirst, hmore, fun hnil field hfield => ?_⟩
  have hmem : field ∈ (Errors.merge [first, more]).map Prod.fst := by
    simpa [Errors.mem_fields_merge] using hfield
  obtain ⟨f, hf, rfl⟩ := List.mem_map.1 hmem
  simpa using List.filter_eq_nil_iff.1 hnil f hf

/-- An error is noted for an item of which nothing is built. -/
theorem resolved_of_note {x : Payload.Item}
    (hx : ∀ inner, x.description? = some inner → x.target.isAbstract = true) (key : String)
    (messages : List String) (s : σ) (es : Errors) :
    w.Resolved x key s es none (Errors.note key messages es) := by
  have hne := Errors.note_ne_nil key messages es
  refine ⟨fun h => absurd h hne, fun name hname => Errors.mem_fields_note.1 hname,
    fun h => absurd h hne, fun _ => hne, fun inner hinner hconcrete => ?_⟩
  simp [hx inner hinner] at hconcrete

theorem resolved_of_describe {x : Payload.Item} {inner : List (String × Value)}
    (hinner : x.description? = some inner) {key : String} {es es' : Errors} {s t : σ}
    {o : Option R} (h : Gives (w.describe w.mapPayload x.target key x.inverse inner es) s
      (o, es') t) : w.Resolved x key s es o es' := by
  unfold describe at h
  split at h
  · next habstract =>
    obtain ⟨heq, -⟩ := gives_pure.1 h
    obtain ⟨rfl, rfl⟩ := Prod.mk.inj heq
    exact resolved_of_note (fun _ _ => habstract) key _ s es
  · next hconcrete =>
    obtain ⟨p, s₁, hp, h⟩ := gives_bind.1 h
    obtain ⟨r, s₂, hr, h⟩ := gives_bind.1 h
    obtain ⟨own, s₃, hown, h⟩ := gives_bind.1 h
    obtain ⟨heq, -⟩ := gives_pure.1 h
    obtain ⟨rfl, rfl⟩ := Prod.mk.inj heq
    have hnil : (Errors.merge [p.errors, own]).foldl (fun es f => Errors.note key f.2 es) es = [] →
        es = [] ∧ p.errors = [] ∧ own = [] := fun hnil => by
      obtain ⟨hes, hfound⟩ := Errors.foldl_note_eq_nil hnil
      have hparts := Errors.merge_eq_nil.1 hfound
      exact ⟨hes, hparts _ (by simp), hparts _ (by simp)⟩
    have hconcrete' : x.target.isAbstract = false := by simpa using hconcrete
    refine ⟨fun h => (hnil h).1, fun name hname => Errors.mem_fields_foldl_note hname,
      fun h => ⟨r, rfl, .built hinner hconcrete' hp (hnil h).2.1 hr⟩, fun hlost h => ?_,
      fun inner' hinner' _ => ?_⟩
    · obtain ⟨-, -, hown_nil⟩ := hnil h
      cases hlost with
      | missing hnone => simp [hinner] at hnone
      | isAbstract _ habstract => exact hconcrete habstract
      | faulty hinner' _ hp' hr' hfirst' hmore' hfield hne =>
        obtain rfl := Option.some.inj (hinner.symm.trans hinner')
        obtain ⟨rfl, rfl⟩ := hp.unique hp'
        obtain ⟨rfl, rfl⟩ := hr.unique hr'
        obtain ⟨first, u, more, hfirst, hmore, hall⟩ := exists_errors_of_newErrors hown
        obtain ⟨rfl, rfl⟩ := hfirst.unique hfirst'
        obtain ⟨rfl, -⟩ := hmore.unique hmore'
        exact hne (hall hown_nil _ hfield)
    · obtain rfl := Option.some.inj (hinner.symm.trans hinner')
      exact ⟨p, s₁, hp, fun h => (hnil h).2.1⟩

theorem resolved_of_refer {x : Payload.Item} (hnone : x.description? = none) {key : String}
    {es es' : Errors} {s t : σ} {o : Option R}
    (h : Gives (w.refer x.target key x.value es) s (o, es') t) : w.Resolved x key s es o es' := by
  obtain ⟨found, s₁, hfound, h⟩ := gives_bind.1 h
  cases found with
  | some e =>
    obtain ⟨heq, -⟩ := gives_pure.1 h
    obtain ⟨rfl, rfl⟩ := Prod.mk.inj heq
    refine ⟨id, fun name hname => .inr hname, fun _ => ⟨_, rfl, .found hnone hfound⟩,
      fun hlost => ?_, fun inner hinner => ?_⟩
    · cases hlost with
      | missing _ hmissing => exact nomatch (hfound.unique hmissing).1
      | isAbstract hinner => simp [hnone] at hinner
      | faulty hinner => simp [hnone] at hinner
    · simp [hnone] at hinner
  | none =>
    obtain ⟨heq, -⟩ := gives_pure.1 h
    obtain ⟨rfl, rfl⟩ := Prod.mk.inj heq
    exact resolved_of_note (by simp [hnone]) key _ s es

theorem resolved_of_resolve {x : Payload.Item} {key : String} {es es' : Errors} {s t : σ}
    {o : Option R} (h : Gives (w.resolve w.mapPayload x.target key x.mayDescribe x.inverse x.value
      es) s (o, es') t) : w.Resolved x key s es o es' := by
  unfold resolve at h
  split at h
  · next inner hinner => exact resolved_of_describe hinner h
  · next hnone => exact resolved_of_refer hnone h

/-! ## The items of a list -/

section

variable {target : ResourceType} {key : String} {mayDescribe : Bool} {inverse : Option String}
  {s t : σ} {es es' : Errors} {rs : List R}

theorem exists_resolve_of_resolveAll_cons {v : Value} {vs : List Value}
    (h : Gives (w.resolveAll w.mapPayload target key mayDescribe inverse (v :: vs) es) s
      (rs, es') t) : ∃ o es₁ u rest,
      Gives (w.resolve w.mapPayload target key mayDescribe inverse v es) s (o, es₁) u ∧
      Gives (w.resolveAll w.mapPayload target key mayDescribe inverse vs es₁) u (rest, es') t ∧
      rs = o.toList ++ rest := by
  unfold resolveAll at h
  obtain ⟨⟨o, es₁⟩, u, hv, h⟩ := gives_bind.1 h
  obtain ⟨⟨rest, es₂⟩, z, hvs, h⟩ := gives_bind.1 h
  obtain ⟨heq, rfl⟩ := gives_pure.1 h
  obtain ⟨rfl, rfl⟩ := Prod.mk.inj heq
  exact ⟨o, es₁, u, rest, hv, hvs, rfl⟩

/-- Going through a list goes through its first part and then through the rest. -/
theorem exists_resolveAll_append {xs ys : List Value}
    (h : Gives (w.resolveAll w.mapPayload target key mayDescribe inverse (xs ++ ys) es) s
      (rs, es') t) : ∃ first es₁ u rest,
      Gives (w.resolveAll w.mapPayload target key mayDescribe inverse xs es) s (first, es₁) u ∧
      Gives (w.resolveAll w.mapPayload target key mayDescribe inverse ys es₁) u (rest, es') t := by
  induction xs generalizing es s rs with
  | nil => exact ⟨[], es, s, rs, gives_pure.2 ⟨rfl, rfl⟩, h⟩
  | cons x xs ih =>
    obtain ⟨o, es₁, u, more, hx, hmore, -⟩ := exists_resolve_of_resolveAll_cons h
    obtain ⟨first, es₂, z, rest, hxs, hys⟩ := ih hmore
    refine ⟨o.toList ++ first, es₂, z, rest, ?_, hys⟩
    exact gives_bind.2 ⟨(o, es₁), u, hx, gives_bind.2 ⟨(first, es₂), z, hxs,
      gives_pure.2 ⟨rfl, rfl⟩⟩⟩

theorem kept_of_resolveAll {vs : List Value}
    (h : Gives (w.resolveAll w.mapPayload target key mayDescribe inverse vs es) s (rs, es') t) :
    (es' = [] → es = []) ∧
      ∀ name ∈ es'.map Prod.fst, name = key ∨ name ∈ es.map Prod.fst := by
  induction vs generalizing es s rs with
  | nil =>
    obtain ⟨heq, -⟩ := gives_pure.1 h
    obtain ⟨-, rfl⟩ := Prod.mk.inj heq
    exact ⟨id, fun name hname => .inr hname⟩
  | cons v vs ih =>
    obtain ⟨o, es₁, u, rest, hv, hvs, -⟩ := exists_resolve_of_resolveAll_cons h
    have hx := resolved_of_resolve (x := ⟨target, mayDescribe, inverse, v⟩) hv
    obtain ⟨hkept, hkeys⟩ := ih hvs
    exact ⟨fun hnil => hx.kept (hkept hnil),
      fun name hname => (hkeys name hname).elim .inl (hx.keys name)⟩

/-- If nothing is noted, each item means a record, in the state in which it is come to. -/
theorem means_of_resolveAll {vs : List Value}
    (h : Gives (w.resolveAll w.mapPayload target key mayDescribe inverse vs es) s (rs, []) t)
    (P : Value → σ → Prop) (hP : ∀ ahead v behind found u, vs = ahead ++ v :: behind →
      Gives (w.resolveAll w.mapPayload target key mayDescribe inverse ahead es) s found u →
      P v u) :
    List.Forall₂ (fun v r => ∃ u, P v u ∧ w.Means ⟨target, mayDescribe, inverse, v⟩ u r) vs rs := by
  induction vs generalizing es s rs with
  | nil =>
    obtain ⟨heq, -⟩ := gives_pure.1 h
    obtain ⟨rfl, -⟩ := Prod.mk.inj heq
    exact .nil
  | cons v vs ih =>
    obtain ⟨o, es₁, u, rest, hv, hvs, rfl⟩ := exists_resolve_of_resolveAll_cons h
    have hx := resolved_of_resolve (x := ⟨target, mayDescribe, inverse, v⟩) hv
    obtain ⟨r, rfl, hmeans⟩ := hx.means ((kept_of_resolveAll hvs).1 rfl)
    refine .cons ⟨s, hP [] v vs ([], es) s rfl (gives_pure.2 ⟨rfl, rfl⟩), hmeans⟩ (ih hvs ?_)
    rintro ahead v' behind found u' rfl hahead
    refine hP (v :: ahead) v' behind (r :: found.1, found.2) u' rfl ?_
    exact gives_bind.2 ⟨(some r, es₁), u, hv, gives_bind.2 ⟨found, u', hahead,
      gives_pure.2 ⟨rfl, rfl⟩⟩⟩

end

/-! ## One relationship -/

variable (w) in
/-- What a payload gives to a relationship: nothing if it does not speak about it, the records
that are meant, or an error where many are not given as a list. -/
inductive Relates (fields : List (String × Value)) (p : Payload R) (rel : Relationship) (s : σ) :
    Payload R → σ → Prop
  | silent : Payload.about rel fields = none → Relates fields p rel s p s
  | many {target key items mayDescribe rs es t} : rel.isMany = true →
      w.registry.resolve rel.target = .ok target →
      Payload.about rel fields = some (key, .list items, mayDescribe) →
      Gives (w.resolveAll w.mapPayload target key mayDescribe rel.inverse items p.errors) s
        (rs, es) t →
      Relates fields p rel s ({ p with errors := es }.give rel.name (.records rs)) t
  | noList {key v mayDescribe messages} : rel.isMany = true →
      Payload.about rel fields = some (key, v, mayDescribe) → (∀ items, v ≠ .list items) →
      Relates fields p rel s { p with errors := Errors.note key messages p.errors } s
  | null {key v mayDescribe} : rel.isMany = false →
      Payload.about rel fields = some (key, v, mayDescribe) → v.isNull = true →
      Relates fields p rel s (p.give rel.name (.value .null)) s
  | one {target key v mayDescribe o es t} : rel.isMany = false →
      w.registry.resolve rel.target = .ok target →
      Payload.about rel fields = some (key, v, mayDescribe) → v.isNull = false →
      Gives (w.resolve w.mapPayload target key mayDescribe rel.inverse v p.errors) s (o, es) t →
      Relates fields p rel s
        ({ p with errors := es }.give rel.name (o.elim (.value .null) .record)) t

theorem relates_of_mapRelationship {fields : List (String × Value)} {p p' : Payload R}
    {rel : Relationship} {s t : σ}
    (h : Gives (w.mapRelationship w.mapPayload fields p rel) s p' t) :
    w.Relates fields p rel s p' t := by
  obtain ⟨target, s', hresolve, h⟩ := gives_bind.1 h
  obtain ⟨htarget, rfl⟩ := gives_ofExcept.1 hresolve
  split at h
  · next habout =>
    obtain ⟨rfl, rfl⟩ := gives_pure.1 h
    exact .silent habout
  · next key v mayDescribe habout =>
    split at h
    · next hmany =>
      split at h
      · next items =>
        obtain ⟨⟨rs, es⟩, u, hall, h⟩ := gives_bind.1 h
        obtain ⟨rfl, rfl⟩ := gives_pure.1 h
        exact .many hmany htarget habout hall
      · next hno =>
        obtain ⟨rfl, rfl⟩ := gives_pure.1 h
        exact .noList hmany habout fun items hitems => hno items hitems
    · next hone =>
      have hone' : rel.isMany = false := by simpa using hone
      split at h
      · next hnull =>
        obtain ⟨rfl, rfl⟩ := gives_pure.1 h
        exact .null hone' habout hnull
      · next hsome =>
        obtain ⟨⟨o, es⟩, u, hv, h⟩ := gives_bind.1 h
        obtain ⟨rfl, rfl⟩ := gives_pure.1 h
        exact .one hone' htarget habout (by simpa using hsome) hv

section

variable {fields : List (String × Value)} {p p' : Payload R} {rel : Relationship} {s t : σ}
  (h : w.Relates fields p rel s p' t)

include h

/-- Errors are only added, under names that the payload has. -/
theorem Relates.kept : (p'.errors = [] → p.errors = []) ∧
    ∀ name ∈ p'.errors.map Prod.fst,
      name ∈ fields.map Prod.fst ∨ name ∈ p.errors.map Prod.fst := by
  have hkey : ∀ {key v mayDescribe}, Payload.about rel fields = some (key, v, mayDescribe) →
      ∀ {name}, name = key → name ∈ fields.map Prod.fst := by
    rintro key v mayDescribe habout _ rfl
    exact Fields.mem_names_of_get? (Payload.get?_of_about habout)
  cases h with
  | silent => exact ⟨id, fun name hname => .inr hname⟩
  | null => exact ⟨id, fun name hname => .inr hname⟩
  | noList _ habout =>
    exact ⟨fun hnil => absurd hnil (Errors.note_ne_nil _ _ _),
      fun name hname => (Errors.mem_fields_note.1 hname).imp_left (hkey habout)⟩
  | many _ _ habout hall =>
    obtain ⟨hkept, hkeys⟩ := kept_of_resolveAll hall
    exact ⟨hkept, fun name hname => (hkeys name hname).imp_left (hkey habout)⟩
  | @one target _ v mayDescribe _ _ _ _ _ habout _ hv =>
    have hx := resolved_of_resolve (x := ⟨target, mayDescribe, rel.inverse, v⟩) hv
    exact ⟨hx.kept, fun name hname => (hx.keys name hname).imp_left (hkey habout)⟩

/-- Only the relationship itself is given something. -/
theorem Relates.get?_given {name : String} (hne : name ≠ rel.name) :
    Fields.get? name p'.given = Fields.get? name p.given := by
  cases h with
  | silent => rfl
  | noList => rfl
  | many => exact (Fields.get?_put _ _ _ _).trans (if_neg hne)
  | null => exact (Fields.get?_put _ _ _ _).trans (if_neg hne)
  | one => exact (Fields.get?_put _ _ _ _).trans (if_neg hne)

/-- A relationship to many that is given a list is given what comes of going through it. -/
theorem Relates.exists_resolveAll {key : String} {items : List Value} {mayDescribe : Bool}
    (hmany : rel.isMany = true)
    (habout : Payload.about rel fields = some (key, .list items, mayDescribe)) :
    ∃ target rs es, w.registry.resolve rel.target = .ok target ∧
      Gives (w.resolveAll w.mapPayload target key mayDescribe rel.inverse items p.errors) s
        (rs, es) t ∧ p' = { p with errors := es }.give rel.name (.records rs) := by
  cases h with
  | silent hnone => simp [habout] at hnone
  | null hone => simp [hmany] at hone
  | one hone => simp [hmany] at hone
  | noList _ habout' hno =>
    simp only [habout, Option.some.injEq, Prod.mk.injEq] at habout'
    exact absurd habout'.2.1.symm (hno _)
  | many _ htarget habout' hall =>
    simp only [habout, Option.some.injEq, Prod.mk.injEq, Value.list.injEq] at habout'
    obtain ⟨rfl, rfl, rfl⟩ := habout'
    exact ⟨_, _, _, htarget, hall, rfl⟩

/-- What is given to a relationship to many is a list, or that is noted. -/
theorem Relates.exists_list {key : String} {v : Value} {mayDescribe : Bool}
    (hmany : rel.isMany = true) (habout : Payload.about rel fields = some (key, v, mayDescribe))
    (hnil : p'.errors = []) : ∃ items, v = .list items := by
  cases h with
  | silent hnone => simp [habout] at hnone
  | null hone => simp [hmany] at hone
  | one hone => simp [hmany] at hone
  | noList => exact absurd hnil (Errors.note_ne_nil _ _ _)
  | many _ _ habout' =>
    simp only [habout, Option.some.injEq, Prod.mk.injEq] at habout'
    exact ⟨_, habout'.2.1⟩

/-- A relationship to one that is given something is given what comes of that. -/
theorem Relates.exists_resolve {key : String} {v : Value} {mayDescribe : Bool}
    (hone : rel.isMany = false) (habout : Payload.about rel fields = some (key, v, mayDescribe))
    (hsome : v.isNull = false) :
    ∃ target o es, w.registry.resolve rel.target = .ok target ∧
      Gives (w.resolve w.mapPayload target key mayDescribe rel.inverse v p.errors) s (o, es) t ∧
      p' = { p with errors := es }.give rel.name (o.elim (.value .null) .record) := by
  cases h with
  | silent hnone => simp [habout] at hnone
  | noList hmany => simp [hone] at hmany
  | many hmany => simp [hone] at hmany
  | null _ habout' hnull =>
    simp only [habout, Option.some.injEq, Prod.mk.injEq] at habout'
    simp [← habout'.2.1, hsome] at hnull
  | one _ htarget habout' _ hv =>
    simp only [habout, Option.some.injEq, Prod.mk.injEq] at habout'
    obtain ⟨rfl, rfl, rfl⟩ := habout'
    exact ⟨_, _, _, htarget, hv, rfl⟩

end

/-! ## A whole payload -/

variable {t : ResourceType} {fields : List (String × Value)} {p : Payload R} {s z : σ}

/-- Mapping a payload comes to each relationship, and goes on from what that one is given. -/
theorem exists_relates (h : Gives (w.mapPayload t fields) s p z)
    {before after : List Relationship} {rel : Relationship}
    (hsplit : t.writableRelationships = before ++ rel :: after) : ∃ p₀ u p₁ v,
      Gives (before.foldlM (w.mapRelationship w.mapPayload fields) (mapProperties t fields)) s
        p₀ u ∧ w.Relates fields p₀ rel u p₁ v ∧
      Gives (after.foldlM (w.mapRelationship w.mapPayload fields) p₁) v p z := by
  rw [mapPayload_eq, hsplit, List.foldlM_append] at h
  obtain ⟨p₀, u, hbefore, h⟩ := gives_bind.1 h
  rw [List.foldlM_cons] at h
  obtain ⟨p₁, v, hrel, hafter⟩ := gives_bind.1 h
  exact ⟨p₀, u, p₁, v, hbefore, relates_of_mapRelationship hrel, hafter⟩

theorem errors_eq_nil_of_foldlM {rels : List Relationship} {p₁ : Payload R} {v : σ}
    (h : Gives (rels.foldlM (w.mapRelationship w.mapPayload fields) p₁) v p z)
    (hnil : p.errors = []) : p₁.errors = [] := by
  by_contra hne
  exact h.foldlM (fun q => q.errors ≠ []) hne (fun _ _ _ _ _ _ hq hrel hnil =>
    hq ((relates_of_mapRelationship hrel).kept.1 hnil)) hnil

theorem get?_given_of_foldlM {rels : List Relationship} {p₁ : Payload R} {v : σ}
    (h : Gives (rels.foldlM (w.mapRelationship w.mapPayload fields) p₁) v p z) {name : String}
    (hname : ∀ rel ∈ rels, rel.name ≠ name) :
    Fields.get? name p.given = Fields.get? name p₁.given :=
  h.foldlM (fun q => Fields.get? name q.given = Fields.get? name p₁.given) rfl
    fun rel hrel _ _ _ _ hq hstep =>
      ((relates_of_mapRelationship hstep).get?_given (hname rel hrel).symm).trans hq

/-- Mapping a payload comes to each of its relationships. -/
theorem exists_arrives (h : Gives (w.mapPayload t fields) s p z) {rel : Relationship}
    (hrel : rel ∈ t.writableRelationships) : ∃ p₀ u, w.Arrives s t fields rel p₀ u := by
  obtain ⟨before, after, hsplit⟩ := List.append_of_mem hrel
  obtain ⟨p₀, u, p₁, v, hbefore, -, -⟩ := exists_relates h hsplit
  exact ⟨p₀, u, before, after, hsplit, hbefore⟩

/-- A relationship that is come to is given something, and what is wrong then stays noted. -/
theorem Arrives.exists_relates {rel : Relationship} {p₀ : Payload R} {u : σ}
    (harrives : w.Arrives s t fields rel p₀ u) (h : Gives (w.mapPayload t fields) s p z) :
    ∃ p₁ v, w.Relates fields p₀ rel u p₁ v ∧ (p.errors = [] → p₁.errors = []) := by
  obtain ⟨before, after, hsplit, hbefore⟩ := harrives
  obtain ⟨p₀', u', p₁, v, hbefore', hrel, hafter⟩ := WritableGraph.exists_relates h hsplit
  obtain ⟨rfl, rfl⟩ := hbefore.unique hbefore'
  exact ⟨p₁, v, hrel, errors_eq_nil_of_foldlM hafter⟩

/-- Errors are noted under names that the payload has. -/
theorem names_errors_subset (h : Gives (w.mapPayload t fields) s p z) :
    ∀ name ∈ p.errors.map Prod.fst, name ∈ fields.map Prod.fst := by
  rw [mapPayload_eq] at h
  refine h.foldlM (fun q => ∀ name ∈ q.errors.map Prod.fst, name ∈ fields.map Prod.fst) ?_ ?_
  · simp [errors_mapProperties]
  · intro rel _ q q' _ _ hq hstep name hname
    exact ((relates_of_mapRelationship hstep).kept.2 name hname).elim id (hq name)

/-- What comes of an item that is come to; if something is noted there, the payload has errors. -/
theorem Visits.exists_resolved {x : Payload.Item} {u : σ} (hx : w.Visits s t fields x u)
    (h : Gives (w.mapPayload t fields) s p z) : ∃ key es o es',
      w.Resolved x key u es o es' ∧ (p.errors = [] → es' = []) := by
  induction hx generalizing p z with
  | @many s t fields rel q u target key ahead v behind mayDescribe found z' harrives hmany htarget
      habout hahead =>
    obtain ⟨p₁, v', hrel, hnil⟩ := harrives.exists_relates h
    obtain ⟨target', rs, es, htarget', hall, rfl⟩ := hrel.exists_resolveAll hmany habout
    obtain rfl := Except.ok.inj (htarget.symm.trans htarget')
    obtain ⟨first, es₁, z₁, rest, hahead', hbehind⟩ := exists_resolveAll_append hall
    obtain ⟨rfl, rfl⟩ := hahead.unique hahead'
    obtain ⟨o, es₂, z₂, rest', hv, hrest, -⟩ := exists_resolve_of_resolveAll_cons hbehind
    exact ⟨key, es₁, o, es₂, resolved_of_resolve hv,
      fun hp => (kept_of_resolveAll hrest).1 (hnil hp)⟩
  | @one s t fields rel q u target key mayDescribe v harrives hone htarget habout hsome =>
    obtain ⟨p₁, v', hrel, hnil⟩ := harrives.exists_relates h
    obtain ⟨target', o, es, htarget', hv, rfl⟩ := hrel.exists_resolve hone habout hsome
    obtain rfl := Except.ok.inj (htarget.symm.trans htarget')
    exact ⟨key, _, o, es, resolved_of_resolve hv, hnil⟩
  | inside _ hinner hconcrete _ ih ih' =>
    obtain ⟨key, es, o, es', hx, hnil⟩ := ih h
    obtain ⟨p', u', hp', hnil'⟩ := hx.inside _ hinner hconcrete
    obtain ⟨key', es₁, o', es₂, hy, hnil''⟩ := ih' hp'
    exact ⟨key', es₁, o', es₂, hy, fun hp => hnil'' (hnil' (hnil hp))⟩

/-- Each item of a payload is come to. -/
theorem Consumes.exists_visits {x : Payload.Item} (hx : w.Consumes t fields x)
    (h : Gives (w.mapPayload t fields) s p z) : ∃ u, w.Visits s t fields x u := by
  induction hx generalizing s p z with
  | many hrel hmany htarget habout hv =>
    obtain ⟨p₀, u, harrives⟩ := exists_arrives h hrel
    obtain ⟨p₁, v', hrelates, -⟩ := harrives.exists_relates h
    obtain ⟨target', rs, es, htarget', hall, -⟩ := hrelates.exists_resolveAll hmany habout
    obtain rfl := Except.ok.inj (htarget.symm.trans htarget')
    obtain ⟨ahead, behind, rfl⟩ := List.append_of_mem hv
    obtain ⟨first, es₁, z₁, rest, hahead, -⟩ := exists_resolveAll_append hall
    exact ⟨z₁, .many harrives hmany htarget habout hahead⟩
  | one hrel hone htarget habout hsome =>
    obtain ⟨p₀, u, harrives⟩ := exists_arrives h hrel
    exact ⟨u, .one harrives hone htarget habout hsome⟩
  | inside _ hinner hconcrete _ ih ih' =>
    obtain ⟨u, hx⟩ := ih h
    obtain ⟨key, es, o, es', hresolved, -⟩ := hx.exists_resolved h
    obtain ⟨p', u', hp', -⟩ := hresolved.inside _ hinner hconcrete
    obtain ⟨z', hy⟩ := ih' hp'
    exact ⟨z', .inside hx hinner hconcrete hy⟩

variable (w) in
/-- A payload gives values to properties as they are, and to relationships the records that its
items mean, in their order. A relationship takes the place of a property, and of one before it,
of its name. -/
structure GivesAll (s : σ) (t : ResourceType) (fields : List (String × Value)) (p : Payload R) :
    Prop where
  property : ∀ x ∈ t.writableProperties, (∀ rel ∈ t.writableRelationships, rel.name ≠ x.name) →
    ∀ v, Fields.get? x.name fields = some v → Fields.get? x.name p.given = some (.value v)
  many : ∀ before rel after, t.writableRelationships = before ++ rel :: after →
    (∀ r ∈ after, r.name ≠ rel.name) → rel.isMany = true → ∀ key v mayDescribe,
      Payload.about rel fields = some (key, v, mayDescribe) → ∃ target items rs,
        w.registry.resolve rel.target = .ok target ∧ v = .list items ∧
        Fields.get? rel.name p.given = some (.records rs) ∧
        List.Forall₂ (fun v r => ∃ u,
          w.Visits s t fields ⟨target, mayDescribe, rel.inverse, v⟩ u ∧
          w.Means ⟨target, mayDescribe, rel.inverse, v⟩ u r) items rs
  one : ∀ before rel after, t.writableRelationships = before ++ rel :: after →
    (∀ r ∈ after, r.name ≠ rel.name) → rel.isMany = false → ∀ key v mayDescribe,
      Payload.about rel fields = some (key, v, mayDescribe) → v.isNull = false →
        ∃ target r u, w.registry.resolve rel.target = .ok target ∧
          Fields.get? rel.name p.given = some (.record r) ∧
          w.Visits s t fields ⟨target, mayDescribe, rel.inverse, v⟩ u ∧
          w.Means ⟨target, mayDescribe, rel.inverse, v⟩ u r

theorem givesAll_of_mapPayload (h : Gives (w.mapPayload t fields) s p z) (hnil : p.errors = []) :
    w.GivesAll s t fields p where
  property x hx hname v hv := by
    rw [mapPayload_eq] at h
    exact (get?_given_of_foldlM h hname).trans (get?_mapProperties hx hv)
  many before rel after hsplit hlast hmany key v mayDescribe habout := by
    obtain ⟨p₀, u, p₁, v', hbefore, hrel, hafter⟩ := exists_relates h hsplit
    have hnil₁ := errors_eq_nil_of_foldlM hafter hnil
    obtain ⟨items, rfl⟩ := hrel.exists_list hmany habout hnil₁
    obtain ⟨target, rs, es, htarget, hall, rfl⟩ := hrel.exists_resolveAll hmany habout
    obtain rfl : es = [] := hnil₁
    refine ⟨target, items, rs, htarget, rfl, (get?_given_of_foldlM hafter hlast).trans
      ((Fields.get?_put _ _ _ _).trans (if_pos rfl)), ?_⟩
    refine means_of_resolveAll hall (fun v u =>
      w.Visits s t fields ⟨target, mayDescribe, rel.inverse, v⟩ u) ?_
    rintro ahead v behind found z₁ rfl hahead
    exact .many ⟨before, after, hsplit, hbefore⟩ hmany htarget habout hahead
  one before rel after hsplit hlast hone key v mayDescribe habout hsome := by
    obtain ⟨p₀, u, p₁, v', hbefore, hrel, hafter⟩ := exists_relates h hsplit
    obtain ⟨target, o, es, htarget, hv, rfl⟩ := hrel.exists_resolve hone habout hsome
    have hx := resolved_of_resolve (x := ⟨target, mayDescribe, rel.inverse, v⟩) hv
    obtain ⟨r, rfl, hmeans⟩ := hx.means (errors_eq_nil_of_foldlM hafter hnil)
    exact ⟨target, r, u, htarget, (get?_given_of_foldlM hafter hlast).trans
      ((Fields.get?_put _ _ _ _).trans (if_pos rfl)),
      .one ⟨before, after, hsplit, hbefore⟩ hone htarget habout hsome, hmeans⟩

/-! ## Storages that answer -/

/-- The storage answers: records are found or not, and built, what the rules look at can be read,
and the rules give verdicts; relationships that clients may write lead to registered types. -/
structure Answers (w : WritableGraph (Effect σ) R) : Prop where
  target : ∀ t ∈ w.registry.types, ∀ rel ∈ t.writableRelationships, ∃ target,
    w.registry.resolve rel.target = .ok target
  get : ∀ t id, IsTotal (w.store.get t id)
  build : ∀ t given, IsTotal (w.store.build t given)
  value : ∀ r name, IsTotal (w.store.value r name)
  related : ∀ r rel, IsTotal (w.store.related r rel)
  report : ∀ rule e, IsTotal (do
    let verdict ← w.judge rule e
    MonadExcept.ofExcept (Errors.ofVerdict verdict))

section

variable (hw : w.Answers)

include hw

theorem isTotal_errors (e : Entity R) (c : Context) : IsTotal (e.errors w.graph c) := by
  have hblanks : IsTotal (e.blanks w.graph) :=
    (isTotal_filterM fun p _ => (hw.value _ _).bind fun _ => isTotal_pure _).bind fun _ =>
      (isTotal_filterM fun rel _ => (hw.related _ _).bind fun _ => isTotal_pure _).bind fun _ =>
        isTotal_pure _
  have hrest : ∀ own : List Errors, IsTotal (do
      let ruled ← e.verdicts w.graph c
      pure (Errors.merge (own ++ ruled))) := fun own =>
    (isTotal_mapM fun v _ => hw.report v.rule e).bind fun _ => isTotal_pure _
  unfold Entity.errors
  split
  · exact (hblanks.bind fun _ => isTotal_pure _).bind hrest
  · exact hrest []

theorem isTotal_resolve {nested : Mapping (Effect σ) R} {target : ResourceType}
    (hnested : ∀ fields, IsTotal (nested target fields)) (key : String) (mayDescribe : Bool)
    (inverse : Option String) (v : Value) (es : Errors) :
    IsTotal (w.resolve nested target key mayDescribe inverse v es) := by
  unfold resolve
  split
  · next fields _ =>
    unfold describe
    split
    · exact isTotal_pure _
    · exact (hnested fields).bind fun p => (hw.build target p.given).bind fun r =>
        ((isTotal_errors hw _ .default).bind fun _ => (isTotal_errors hw _ .create).bind fun _ =>
          isTotal_pure _).bind fun _ => isTotal_pure _
  · refine ((hw.get target _).bind fun _ => isTotal_pure _).bind fun o => ?_
    cases o with
    | none => exact isTotal_pure _
    | some e => exact isTotal_pure _

theorem isTotal_resolveAll {nested : Mapping (Effect σ) R} {target : ResourceType}
    (hnested : ∀ fields, IsTotal (nested target fields)) (key : String) (mayDescribe : Bool)
    (inverse : Option String) (vs : List Value) (es : Errors) :
    IsTotal (w.resolveAll nested target key mayDescribe inverse vs es) := by
  induction vs generalizing es with
  | nil => exact isTotal_pure _
  | cons v vs ih =>
    exact (isTotal_resolve hw hnested key mayDescribe inverse v es).bind fun x =>
      (ih x.2).bind fun _ => isTotal_pure _

theorem isTotal_mapRelationship {nested : Mapping (Effect σ) R}
    (hnested : ∀ t ∈ w.registry.types, ∀ fields, IsTotal (nested t fields)) {t : ResourceType}
    (ht : t ∈ w.registry.types) {rel : Relationship} (hrel : rel ∈ t.writableRelationships)
    (fields : List (String × Value)) (p : Payload R) :
    IsTotal (w.mapRelationship nested fields p rel) := by
  obtain ⟨target, htarget⟩ := hw.target t ht rel hrel
  have hinside := hnested target (Registry.resolve_mem htarget)
  refine isTotal_ofExcept_bind htarget ?_
  split
  · exact isTotal_pure _
  · next key v mayDescribe _ =>
    split
    · split
      · exact (isTotal_resolveAll hw hinside key mayDescribe rel.inverse _ p.errors).bind
          fun _ => isTotal_pure _
      · exact isTotal_pure _
    · split
      · exact isTotal_pure _
      · exact (isTotal_resolve hw hinside key mayDescribe rel.inverse v p.errors).bind
          fun _ => isTotal_pure _

/-- Where the storage answers, a payload of a registered type can be mapped. -/
theorem isTotal_mapPayload (ht : t ∈ w.registry.types) (fields : List (String × Value)) :
    IsTotal (w.mapPayload t fields) := by
  have hfuel : ∀ fuel, ∀ t ∈ w.registry.types, ∀ fields, IsTotal (w.mapFields fuel t fields) := by
    intro fuel
    induction fuel with
    | zero => exact fun _ _ _ => isTotal_pure _
    | succ fuel ih =>
      exact fun t ht fields => isTotal_foldlM
        (fun _ hrel p => isTotal_mapRelationship hw ih ht hrel fields p) _
  exact hfuel _ t ht fields

end

/-! ## Nothing is lost silently -/

/-- Errors are noted under names that the payload has. If none are noted, properties are given
their values and relationships the records that are meant. Each item of the payload is come to,
and if one is lost there, at any depth, then there are errors. Where the storage answers, the
payload can be mapped. -/
theorem mapPayload_loses_nothing (w : WritableGraph (Effect σ) R) (s : σ) (t : ResourceType)
    (fields : List (String × Value)) :
    (∀ p z, Gives (w.mapPayload t fields) s p z →
      (∀ name ∈ p.errors.map Prod.fst, name ∈ fields.map Prod.fst) ∧
      (p.errors = [] → w.GivesAll s t fields p) ∧
      (∀ x, w.Consumes t fields x → ∃ u, w.Visits s t fields x u) ∧
      ∀ x u, w.Visits s t fields x u → w.IsLost x u → p.errors ≠ []) ∧
    (w.Answers → t ∈ w.registry.types → ∃ p z, Gives (w.mapPayload t fields) s p z) := by
  refine ⟨fun p z h => ⟨names_errors_subset h, givesAll_of_mapPayload h,
    fun x hx => hx.exists_visits h, fun x u hx hlost hnil => ?_⟩,
    fun hw ht => isTotal_mapPayload hw ht fields s⟩
  obtain ⟨key, es, o, es', hresolved, hnoted⟩ := hx.exists_resolved h
  exact hresolved.noted hlost (hnoted hnil)

/-- A page has tags, in a text. -/
def page : ResourceType := { name := "Page", properties := [{ name := "tags" }] }

/-- Tags must have a name. -/
def tag : ResourceType := { name := "Tag", properties := [{ name := "name", required := true }] }

/-- Memos are pages, but their tags are records. -/
def memo : ResourceType :=
  { name := "Memo", supertype := some "Page"
    relationships := [{ name := "tags", target := .named "Tag" }] }

/-- Boards have two relationships of one name, to many tags and to one. -/
def board : ResourceType :=
  { name := "Board"
    relationships :=
      [{ name := "tags", target := .named "Tag" },
        { name := "tags", target := .named "Tag", cardinality := .one }] }

/-- A desk with memos and boards; the state of the storage are the names of the tags. -/
def desk : WritableGraph (Effect (List Value)) Nat where
  registry := ((((Registry.empty.register page).1.register tag).1.register memo).1.register board).1
  store :=
    { classOf := fun _ => none
      query := fun _ => do
        let names ← get
        pure (List.range names.length)
      get := fun _ id => do
        let names ← get
        pure ((List.range names.length).find? fun r => id == .int (r + 1))
      identity := fun r => pure (.int (r + 1))
      value := fun r _ => do
        let names ← get
        pure (names[r]?.getD .null)
      related := fun _ _ => pure (.many [])
      source := fun _ _ => pure []
      build := fun _ given => do
        let names ← get
        let name := match Fields.get? "name" given with
          | some (.value v) => v
          | _ => .null
        set (names ++ [name])
        pure names.length
      assign := fun _ _ => pure ()
      attach := fun _ _ _ => pure ()
      persist := fun _ => pure ()
      rollback := pure ()
      destroy := fun _ => pure false
      hold := fun _ => pure () }
  judge := fun _ _ => pure .null

theorem types_desk : desk.registry.types = [page, tag, memo.inherit page, board] := rfl

theorem answers_desk : desk.Answers where
  target t ht rel hrel := by
    rw [types_desk] at ht
    obtain rfl | rfl | rfl | rfl : t = page ∨ t = tag ∨ t = memo.inherit page ∨ t = board := by
      simpa using ht
    · cases hrel
    · cases hrel
    · obtain rfl := List.mem_singleton.1 hrel
      exact ⟨tag, rfl⟩
    · obtain rfl | rfl : rel = _ ∨ rel = _ := by simpa [board] using (List.mem_filter.1 hrel).1
      · exact ⟨tag, rfl⟩
      · exact ⟨tag, rfl⟩
  get _ _ _ := ⟨_, _, rfl⟩
  build _ _ _ := ⟨_, _, rfl⟩
  value _ _ _ := ⟨_, _, rfl⟩
  related _ _ _ := ⟨_, _, rfl⟩
  report _ _ _ := ⟨_, _, rfl⟩

/-- A memo is given a tag that there is and a new one; of a tag that there is not it is told. -/
theorem mapPayload_loses_nothing_desk :
    (∃ p z rs, Gives (desk.mapPayload (memo.inherit page)
        [("tags", .list [.int 1, .object [("name", .text "red")]])]) [.text "blue"] p z ∧
      Fields.get? "tags" p.given = some (.records rs) ∧ rs.length = 2) ∧
    ∃ p z, Gives (desk.mapPayload (memo.inherit page) [("tags", .list [.int 7])]) [.text "blue"]
      p z ∧ p.errors ≠ [] := by
  have hmem : memo.inherit page ∈ desk.registry.types := by simp [types_desk]
  constructor
  · obtain ⟨hgives, -⟩ := mapPayload_loses_nothing desk [.text "blue"] (memo.inherit page)
      [("tags", .list [.int 1, .object [("name", .text "red")]])]
    obtain ⟨-, hall, -⟩ := hgives ⟨[("tags", .records [0, 1])], []⟩
      [.text "blue", .text "red"] rfl
    obtain ⟨target, items, rs, -, hitems, hrs, hmeans⟩ := (hall rfl).many []
      { name := "tags", target := .named "Tag" } [] rfl (by simp) rfl _ _ _ rfl
    obtain rfl := Value.list.inj hitems
    exact ⟨_, _, rs, rfl, hrs, hmeans.length_eq.symm⟩
  · obtain ⟨hgives, htotal⟩ := mapPayload_loses_nothing desk [.text "blue"] (memo.inherit page)
      [("tags", .list [.int 7])]
    obtain ⟨p, z, hp⟩ := htotal answers_desk hmem
    obtain ⟨-, -, -, hnoted⟩ := hgives p z hp
    have harrives : desk.Arrives [.text "blue"] (memo.inherit page) [("tags", .list [.int 7])]
        { name := "tags", target := .named "Tag" }
        (mapProperties (memo.inherit page) [("tags", .list [.int 7])]) [.text "blue"] :=
      ⟨[], [], rfl, gives_pure.2 ⟨rfl, rfl⟩⟩
    have habout : Payload.about { name := "tags", target := .named "Tag" }
        [("tags", .list [.int 7])] = some ("tags", .list ([] ++ .int 7 :: []), true) := rfl
    have hvisits : desk.Visits [.text "blue"] (memo.inherit page) [("tags", .list [.int 7])]
        ⟨tag, true, none, .int 7⟩ [.text "blue"] :=
      .many harrives rfl rfl habout (gives_pure.2 ⟨rfl, rfl⟩)
    exact ⟨p, z, hp, hnoted _ _ hvisits (.missing rfl rfl)⟩

/-- What is given under one name is displaced by what is given there later: a memo inherits its
tags from pages as a property, but is given records instead of the value; and a board is given
one tag instead of the list. -/
theorem tags_displaced_desk :
    (∃ p z, Gives (desk.mapPayload (memo.inherit page)
        [("tags", .list [.object [("id", .int 1)]])]) [.text "blue"] p z ∧ p.errors = [] ∧
      ({ name := "tags" } : Property) ∈ (memo.inherit page).writableProperties ∧
      Fields.get? "tags" p.given ≠ some (.value (.list [.object [("id", .int 1)]]))) ∧
    ∃ p z, Gives (desk.mapPayload board [("tags_ids", .list [.int 1]), ("tags_id", .int 1)])
        [.text "blue"] p z ∧ p.errors = [] ∧
      ({ name := "tags", target := .named "Tag" } : Relationship) ∈ board.writableRelationships ∧
      ∀ rs, Fields.get? "tags" p.given ≠ some (.records rs) :=
  ⟨⟨⟨[("tags", .records [0])], []⟩, _, rfl, rfl, List.mem_cons_self, nofun⟩,
    ⟨[("tags", .record 0)], []⟩, _, rfl, rfl, List.mem_cons_self, nofun⟩

end WritableGraph

end Hypermedia
