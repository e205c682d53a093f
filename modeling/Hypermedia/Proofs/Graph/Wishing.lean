import Hypermedia.Proofs.Graph.Finding
import Hypermedia.Proofs.Session.Granting

/-!
# What payloads wish

A payload that describes no new records refers to those that are there by their numbers. What is
wished with it can then be told from the payload alone, whatever the database has
(`ResourceType.wishes`): values of properties, and the numbers of other records. If nothing is
found to be wrong when the payload is mapped, then what it gives to the fields of a record means
these wishes (`Act.reads_mapPayload_wishes`), and each field is given something once
(`ResourceType.names_wishes_sublist`).
-/

namespace Hypermedia

namespace Payload

/-- The number by which a value refers to a record; zero if it does not. -/
def number (v : Value) : Int := (Conversion.toInt (referredId v)).toOption.getD 0

/-- The numbers by which the items of a list refer to records. -/
def numbers : Value → List Int
  | .list items => items.map number
  | _ => []

/-- Neither the value nor an item of it describes a new record. -/
def isReference : Value → Bool
  | .list items => items.all fun v => (description? v).isNone
  | v => (description? v).isNone

theorem number_eq {v : Value} {k : Int} (h : (referredId v).Means k) : number v = k := by
  rw [number, h]
  rfl

theorem isReference_iff {v : Value} : isReference v = true ↔
    description? v = none ∧ ∀ items, v = .list items → ∀ x ∈ items, description? x = none := by
  cases v <;> simp [isReference, description?]

/-- What may describe new records stands under the name of the relationship. -/
theorem get?_of_mayDescribe {rel : Relationship} {fields : List (String × Value)} {key : String}
    {v : Value} (h : about rel fields = some (key, v, true)) :
    Fields.get? rel.name fields = some v := by
  unfold about at h
  split at h
  · next w hw =>
    obtain ⟨-, hv⟩ := Prod.mk.inj (Option.some.inj h)
    rw [hw, (Prod.mk.inj hv).1]
  · obtain ⟨w, -, heq⟩ := Option.map_eq_some_iff.1 h
    cases heq

end Payload

/-- No relationship of a type is given the description of a new record. -/
def Registry.RefersOnly (reg : Registry) (fields : List (String × Value)) : Prop :=
  ∀ t ∈ reg.types, ∀ rel ∈ t.relationships, ∀ v, Fields.get? rel.name fields = some v →
    Payload.isReference v = true

/-- What a value wishes that is given to a relationship. -/
def Relationship.wish (rel : Relationship) (v : Value) : Wish :=
  if rel.isMany then .many (Payload.numbers v)
  else .one (if v.isNull then none else some (Payload.number v))

/-- What a payload wishes of a property. -/
def Property.wish? (fields : List (String × Value)) (p : Property) : Option (String × Wish) :=
  (Fields.get? p.name fields).map fun v => (p.name, .value v)

/-- What a payload wishes of a relationship. -/
def Relationship.wish? (fields : List (String × Value)) (rel : Relationship) :
    Option (String × Wish) :=
  (Payload.about rel fields).map fun x => (rel.name, rel.wish x.2.1)

namespace ResourceType

/-- What a payload wishes of the fields of a record that clients may write. -/
def wishes (t : ResourceType) (fields : List (String × Value)) : List (String × Wish) :=
  t.writableProperties.filterMap (Property.wish? fields) ++
    t.writableRelationships.filterMap (Relationship.wish? fields)

/-- The names of the fields that clients may write. -/
def writableNames (t : ResourceType) : List String :=
  t.writableProperties.map Property.name ++ t.writableRelationships.map Relationship.name

end ResourceType

/-- The names of what is chosen are names of what it is chosen from. -/
theorem names_filterMap_sublist {α β : Type} {name : α → String} {f : α → Option (String × β)}
    (hf : ∀ a x, f a = some x → x.1 = name a) (as : List α) :
    ((as.filterMap f).map Prod.fst).Sublist (as.map name) := by
  induction as with
  | nil => exact .slnil
  | cons a as ih =>
    cases ha : f a with
    | none =>
      rw [List.filterMap_cons_none ha]
      exact ih.cons _
    | some x =>
      rw [List.filterMap_cons_some ha, List.map_cons, List.map_cons, hf a x ha]
      exact ih.cons_cons _

theorem Property.name_of_wish? {fields : List (String × Value)} {p : Property}
    {x : String × Wish} (h : p.wish? fields = some x) : x.1 = p.name := by
  obtain ⟨v, -, rfl⟩ := Option.map_eq_some_iff.1 h
  rfl

theorem Relationship.name_of_wish? {fields : List (String × Value)} {rel : Relationship}
    {x : String × Wish} (h : rel.wish? fields = some x) : x.1 = rel.name := by
  obtain ⟨v, -, rfl⟩ := Option.map_eq_some_iff.1 h
  rfl

/-- A payload wishes something of fields in their order, and of each field once. -/
theorem ResourceType.names_wishes_sublist (t : ResourceType) (fields : List (String × Value)) :
    ((t.wishes fields).map Prod.fst).Sublist t.writableNames := by
  rw [wishes, List.map_append]
  exact (names_filterMap_sublist (fun _ _ => Property.name_of_wish?) _).append
    (names_filterMap_sublist (fun _ _ => Relationship.name_of_wish?) _)

namespace Catalog

variable {c : Catalog} {K : Ref → String → Int → Prop} {m : Model}
  {given : List (String × Given Ref)} {ws : List (String × Wish)}

theorem Means.name_eq {f : String × Given Ref} {w : String × Wish} (h : c.Means K m f w) :
    f.1 = w.1 := by
  cases h <;> rfl

theorem names_eq_of_means (h : List.Forall₂ (c.Means K m) given ws) :
    given.map Prod.fst = ws.map Prod.fst := by
  induction h with
  | nil => rfl
  | cons hx _ ih => rw [List.map_cons, List.map_cons, hx.name_eq, ih]

/-- A further field is given what is wished of it. -/
theorem means_put (h : List.Forall₂ (c.Means K m) given ws) {name : String} {x : Given Ref}
    {w : Wish} (hno : name ∉ ws.map Prod.fst) (hx : c.Means K m (name, x) (name, w)) :
    List.Forall₂ (c.Means K m) (Fields.put name x given) (ws ++ [(name, w)]) := by
  rw [Fields.put_of_notMem (names_eq_of_means h ▸ hno)]
  exact List.rel_append h (.cons hx .nil)

end Catalog

namespace Act

variable {c : Catalog} {D : Database} {reg : Registry} {book : RuleBook} {m : Model}

/-- What a payload gives to some properties means what it wishes of them. -/
theorem means_foldl_properties {K : Ref → String → Int → Prop} {t : ResourceType}
    (hm : c.Describes reg t m) (fields : List (String × Value)) {ps : List Property}
    (hps : ∀ x ∈ ps, x ∈ t.writableProperties) {p : Payload Ref} {ws : List (String × Wish)}
    (hnames : (ws.map Prod.fst ++ ps.map Property.name).Nodup)
    (h : List.Forall₂ (c.Means K m) p.given ws) :
    List.Forall₂ (c.Means K m) (ps.foldl (fun p x =>
      match Fields.get? x.name fields with
      | some v => p.give x.name (.value v)
      | none => p) p).given (ws ++ ps.filterMap (Property.wish? fields)) := by
  induction ps generalizing p ws with
  | nil => rwa [List.filterMap_nil, List.append_nil]
  | cons x ps ih =>
    have hrest := fun y hy => hps y (List.mem_cons_of_mem _ hy)
    rw [List.foldl_cons]
    cases hv : Fields.get? x.name fields with
    | none =>
      have hwish : x.wish? fields = none := by rw [Property.wish?, hv, Option.map_none]
      rw [List.filterMap_cons_none hwish]
      exact ih hrest (hnames.sublist ((List.sublist_cons_self _ _).append_left _)) h
    | some v =>
      have hwish : x.wish? fields = some (x.name, .value v) := by
        rw [Property.wish?, hv, Option.map_some]
      obtain ⟨hlink, hown⟩ := hm.property x (hps x List.mem_cons_self)
      have hno : x.name ∉ ws.map Prod.fst := fun hmem =>
        (List.nodup_append.1 hnames).2.2 _ hmem _ List.mem_cons_self rfl
      rw [List.filterMap_cons_some hwish, List.append_cons]
      exact ih hrest (by simpa using hnames)
        (Catalog.means_put h hno (.value v hlink hown))

/-- What a payload gives to properties means what it wishes of them. -/
theorem means_mapProperties {K : Ref → String → Int → Prop} {t : ResourceType}
    (hm : c.Describes reg t m) (hnames : (t.writableProperties.map Property.name).Nodup)
    (fields : List (String × Value)) :
    List.Forall₂ (c.Means K m) (WritableGraph.mapProperties t fields : Payload Ref).given
      (t.writableProperties.filterMap (Property.wish? fields)) := by
  rw [← List.nil_append (List.filterMap _ _)]
  exact means_foldl_properties hm fields (fun _ h => h) hnames .nil

variable {I : Session → Prop} {s : Session} (hI : c.Reading D I) (hp : c.Plain) (hD : c.Sound D)
  {nested : WritableGraph.Mapping Act Ref}

include hI hp hD

/-- A value that describes nothing is that of a record with a number, or an error is noted. -/
theorem reads_resolve_number {target : ResourceType} {n : Model}
    (hn : target.model.bind c.ofClass? = some n) {mayDescribe : Bool} {v : Value}
    (hv : mayDescribe = true → Payload.description? v = none) (key : String)
    (inverse : Option String) (errors : Errors) :
    Reads I ((entitiesOf c reg book).resolve nested target key mayDescribe inverse v errors) s
      (fun u x => x.2 = [] → errors = [] ∧
        ∃ r, x.1 = some r ∧ u.Holds r n.rootTable (Payload.number v)) True := by
  have hnone : (if mayDescribe then Payload.description? v else none) = none := by
    split
    · next h => exact hv h
    · rfl
  unfold WritableGraph.resolve
  rw [hnone]
  refine ((reads_lookupEntity hI hp hD hn _).imp (fun _ _ _ _ h => h) fun _ => trivial).bind ?_
  rintro _ u - - ⟨o, rfl, -, hsome, -⟩
  cases o with
  | none => exact reads_pure fun _ h => absurd h (Errors.note_ne_nil _ _ _)
  | some r =>
    obtain ⟨k, row, hk, -, hr⟩ := hsome r rfl
    exact reads_pure fun _ h => ⟨h, r, rfl, Payload.number_eq hk ▸ hr⟩

/-- Values that describe nothing are those of records with numbers, or an error is noted. -/
theorem reads_resolveAll_numbers {target : ResourceType} {n : Model}
    (hn : target.model.bind c.ofClass? = some n) {mayDescribe : Bool} (key : String)
    (inverse : Option String) {items : List Value}
    (hitems : mayDescribe = true → ∀ v ∈ items, Payload.description? v = none)
    (errors : Errors) :
    Reads I ((entitiesOf c reg book).resolveAll nested target key mayDescribe inverse items errors)
      s (fun u x => x.2 = [] → errors = [] ∧ List.Forall₂ (fun r k => u.Holds r n.rootTable k) x.1
        (items.map Payload.number)) True := by
  induction items generalizing errors s with
  | nil => exact reads_pure fun _ h => ⟨h, .nil⟩
  | cons v items ih =>
    refine (reads_resolve_number hI hp hD hn (fun h => hitems h v List.mem_cons_self) key inverse
      errors).bind fun x t _ _ hx => ?_
    refine (ih (fun h w hw => hitems h w (List.mem_cons_of_mem _ hw)) x.2).bind
      fun y u _ htu hy => reads_pure fun _ h => ?_
    obtain ⟨hnil, hrest⟩ := hy h
    obtain ⟨hnil, r, hr, hheld⟩ := hx hnil
    rw [hr]
    exact ⟨hnil, .cons (hheld.mono htu) hrest⟩

/-- What a payload gives to a relationship means what it wishes of it, or an error is noted. -/
theorem reads_mapRelationship_wish {t : ResourceType} (ht : t ∈ reg.types)
    (hm : c.Describes reg t m) (hmem : m ∈ c.models) {rel : Relationship}
    (hrel : rel ∈ t.relationships) {fields : List (String × Value)}
    (hrefers : reg.RefersOnly fields) {p : Payload Ref} {ws : List (String × Wish)}
    (hno : rel.name ∉ ws.map Prod.fst)
    (hws : p.errors = [] → List.Forall₂ (c.Means s.Holds m) p.given ws) :
    Reads I ((entitiesOf c reg book).mapRelationship nested fields p rel) s
      (fun u p' => p'.errors = [] → List.Forall₂ (c.Means u.Holds m) p'.given
        (ws ++ (rel.wish? fields).toList)) True := by
  obtain ⟨l, hl, -, hmany, htarget⟩ := hm.relationship rel hrel
  obtain ⟨n, hn, -⟩ := hp.linkSpec hmem (List.mem_of_find?_eq_some hl)
  have hgiven : ∀ {u : Session}, s.SeenFrom u → p.errors = [] →
      List.Forall₂ (c.Means u.Holds m) p.given ws := fun hsu hnil =>
    (hws hnil).imp fun _ _ h => h.mono fun _ _ _ hx => hx.mono hsu
  unfold WritableGraph.mapRelationship
  rw [monadOfExcept_eq]
  refine (reads_ofExcept (P := fun _ target => reg.resolve rel.target = .ok target)
    (fun _ h => h) fun _ _ => trivial).bind fun target u _ hsu hres => ?_
  have hmodel : target.model.bind c.ofClass? = some n := (htarget target hres).trans hn
  cases habout : Payload.about rel fields with
  | none =>
    rw [Relationship.wish?, habout, Option.map_none, Option.toList_none, List.append_nil]
    exact reads_pure fun _ => hgiven hsu
  | some x =>
    obtain ⟨key, v, mayDescribe⟩ := x
    have hdescribes : mayDescribe = true → Payload.isReference v = true := fun h =>
      hrefers t ht rel hrel v (Payload.get?_of_mayDescribe (h ▸ habout))
    rw [Relationship.wish?, habout, Option.map_some, Option.toList_some]
    dsimp only
    refine reads_ite (fun hyes => ?_) fun hone => ?_
    · have hlist : l.isList = true := hmany.symm.trans hyes
      split
      · next items =>
        refine (reads_resolveAll_numbers hI hp hD hmodel key rel.inverse (fun h =>
          (Payload.isReference_iff.1 (hdescribes h)).2 items rfl) p.errors).bind
            fun y v _ huv hy => reads_pure fun _ h => ?_
        obtain ⟨hnil, hrs⟩ := hy h
        rw [Relationship.wish, if_pos hyes]
        exact Catalog.means_put (hgiven (hsu.trans huv) hnil) hno (.many hl hlist hn hrs)
      · exact reads_pure fun _ h => absurd h (Errors.note_ne_nil _ _ _)
    · have hlone : l.isList = false := by rw [← hmany]; simpa using hone
      refine reads_ite (fun hnull => ?_) fun hnull => ?_
      · refine reads_pure fun _ h => ?_
        have hwish : rel.wish v = .one none := by rw [Relationship.wish, if_neg hone, if_pos hnull]
        rw [hwish]
        exact Catalog.means_put (hgiven hsu h) hno (.nothing hl hlone)
      · refine (reads_resolve_number hI hp hD hmodel (fun h =>
          (Payload.isReference_iff.1 (hdescribes h)).1) key rel.inverse p.errors).bind
            fun y w _ huv hy => reads_pure fun _ h => ?_
        obtain ⟨hnil, r, hr, hheld⟩ := hy h
        have hwish : rel.wish v = .one (some (Payload.number v)) := by
          rw [Relationship.wish, if_neg hone, if_neg hnull]
        rw [hwish, hr]
        exact Catalog.means_put (hgiven (hsu.trans huv) hnil) hno (.one hl hlone hn hheld)

/-- What a payload gives to some relationships means what it wishes of them, or an error is
noted. -/
theorem reads_foldlM_wishes {t : ResourceType} (ht : t ∈ reg.types) (hm : c.Describes reg t m)
    {fields : List (String × Value)} (hrefers : reg.RefersOnly fields) {rels : List Relationship}
    (hrels : ∀ rel ∈ rels, rel ∈ t.relationships) {p : Payload Ref} {ws : List (String × Wish)}
    (hnames : (ws.map Prod.fst ++ rels.map Relationship.name).Nodup)
    (hws : p.errors = [] → List.Forall₂ (c.Means s.Holds m) p.given ws) :
    Reads I (rels.foldlM ((entitiesOf c reg book).mapRelationship nested fields) p) s
      (fun u p' => p'.errors = [] → List.Forall₂ (c.Means u.Holds m) p'.given
        (ws ++ rels.filterMap (Relationship.wish? fields))) True := by
  induction rels generalizing p ws s with
  | nil =>
    rw [List.filterMap_nil, List.append_nil]
    exact reads_pure fun _ => hws
  | cons rel rels ih =>
    have hno : rel.name ∉ ws.map Prod.fst := fun hmem =>
      (List.nodup_append.1 hnames).2.2 _ hmem _ List.mem_cons_self rfl
    rw [List.foldlM_cons, List.filterMap_eq_flatMap_toList, List.flatMap_cons, ← List.append_assoc,
      ← List.filterMap_eq_flatMap_toList]
    refine (reads_mapRelationship_wish hI hp hD ht hm (ofClass?_mem hm.model)
      (hrels rel List.mem_cons_self) hrefers hno hws).bind fun p' u _ _ hp' =>
        ih (fun r hr => hrels r (List.mem_cons_of_mem _ hr)) ?_ hp'
    cases hwish : rel.wish? fields with
    | none =>
      rw [Option.toList_none, List.append_nil]
      exact hnames.sublist ((List.sublist_cons_self _ _).append_left _)
    | some x => simpa [Relationship.name_of_wish? hwish] using hnames

/-- What a payload without descriptions gives to the fields of a record means what it wishes, or
an error is noted. -/
theorem reads_mapPayload_wishes {t : ResourceType} (ht : t ∈ reg.types)
    (hm : c.Describes reg t m) (hnames : t.writableNames.Nodup) {fields : List (String × Value)}
    (hrefers : reg.RefersOnly fields) :
    Reads I ((entitiesOf c reg book).mapPayload t fields) s
      (fun u p => p.errors = [] → List.Forall₂ (c.Means u.Holds m) p.given (t.wishes fields))
      True := by
  rw [WritableGraph.mapPayload_eq]
  have hwished : ((t.writableProperties.filterMap (Property.wish? fields)).map Prod.fst).Sublist
      (t.writableProperties.map Property.name) :=
    names_filterMap_sublist (fun _ _ => Property.name_of_wish?) _
  exact reads_foldlM_wishes hI hp hD ht hm hrefers (fun rel hrel => (List.mem_filter.1 hrel).1)
    (hnames.sublist (hwished.append_right _))
    fun _ => means_mapProperties hm (List.nodup_append.1 hnames).1 fields

end Act

end Hypermedia
