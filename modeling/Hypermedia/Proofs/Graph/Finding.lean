import Hypermedia.Proofs.Graph.Judging
import Hypermedia.Proofs.Number.Spelled
import Hypermedia.Proofs.Text.Torn

/-!
# Finding records by their ids

There are two ways from an id to a record of a type. `ResourceGraph.lookup` converts the id to
the number of a row; `Collection.get` takes the member whose id reads like it. The first finds
the member whose number the id means (`Act.reads_lookupOf`) and fails for what the store cannot
hold; the second finds the member whose number the id spells (`Act.reads_collectionGet`). What
spells a number means it, so whatever the second finds the first finds as well, and they differ
only for ids that are not spelled like the number that they mean (`Act.ends_bothWays`).
-/

namespace Hypermedia

/-- The entity of an id, all entities of a type, and the one of them whose id reads like it. -/
def ResourceGraph.bothWays {m : Type → Type} [Monad m] [MonadExceptOf Fault m] {R : Type}
    (g : ResourceGraph m R) (t : ResourceType) (id : Value) :
    m (Option (Entity R) × Collection R × Option (Entity R)) := do
  let found ← g.lookup t id
  let members ← g.collection t
  let member ← members.get g id
  pure (found, members, member)

/-! ## What ids mean -/

namespace Value

/-- The number that a value means as an id. -/
def Means (v : Value) (k : Int) : Prop := Conversion.toInt v = .ok k

/-- The value means an infinity or a number that the store cannot hold, or there is an integer in
it that is too long to be written. -/
def IsTooLarge (v : Value) : Prop :=
  (∃ text, Conversion.toInt v = .error (.overflow text)) ∨ (∃ k, v.Means k ∧ ¬Act.InStore k) ∨
    v.isShort = false

/-- The value is spelled like the number that it means, if it means one. -/
def IsSpelled (v : Value) : Prop := ∀ k, v.Means k → v.display = toString k

theorem Means.unique {v : Value} {j k : Int} (hj : v.Means j) (hk : v.Means k) : j = k :=
  Except.ok.inj (hj.symm.trans hk)

/-- What means a number of the store can be written. -/
theorem Means.isShort {v : Value} {k : Int} (h : v.Means k) (hk : Act.InStore k) :
    v.isShort = true := by
  cases v with
  | int n =>
    obtain rfl := Except.ok.inj h
    exact Reading.isShort_of_inStore hk.1 (Int.le_of_lt hk.2)
  | list _ | object _ => cases h
  | _ => rfl

theorem Means.not_tooLarge {v : Value} {k : Int} (h : v.Means k) (hk : Act.InStore k) :
    ¬v.IsTooLarge := by
  rintro (⟨text, htext⟩ | ⟨j, hj, hlarge⟩ | hlong)
  · cases h.symm.trans htext
  · exact hlarge (hj.unique h ▸ hk)
  · exact absurd (h.isShort hk) (by simp [hlong])

/-- A value that is written in a document and reads like a number of the store means it. -/
theorem means_of_display {v : Value} (hv : v.isDocument = true) {k : Int} (hlow : 0 ≤ k)
    (hhigh : k < storeIntegerBound) (h : v.display = toString k) : v.Means k := by
  have hdigits : ∀ ch ∈ v.display.toList, ch.isDigit = true := fun ch hch =>
    isDigit_of_mem_toString hlow (h ▸ hch)
  have hno : ∀ {ch : Char}, ch ∈ v.display.toList → ch.isDigit = false → v.Means k :=
    fun hch hfalse => absurd (hdigits _ hch) (by simp [hfalse])
  cases v with
  | text s =>
    obtain rfl : s = toString k := h
    exact Conversion.toInt_toString hlow hhigh
  | torn t => exact hno t.replacement_mem (by decide)
  | int n => exact congrArg Except.ok (eq_of_toString_eq hlow h)
  | float x =>
    obtain ⟨ch, hch, hfalse⟩ := x.exists_mem_text
    exact hno hch hfalse
  | null => exact hno (show 'N' ∈ "None".toList by decide) rfl
  | bool b =>
    cases b
    · exact hno (show 'F' ∈ "False".toList by decide) rfl
    · exact hno (show 'T' ∈ "True".toList by decide) rfl
  | list vs =>
    have hbracket : '[' ∈ ("[" ++ listed (literals vs) ++ "]").toList := by simp
    exact hno hbracket rfl
  | object fs =>
    have hbrace : '\x7b' ∈ ("\x7b" ++ listed (fieldLiterals fs) ++ "\x7d").toList := by simp
    exact hno hbrace rfl
  | _ => cases hv

/-- A boolean as a number. -/
def asNumber : Value → Value
  | .bool b => .int (if b then 1 else 0)
  | v => v

theorem toInt_asNumber (v : Value) : Conversion.toInt v.asNumber = Conversion.toInt v := by
  cases v <;> rfl

theorem isShort_asNumber (v : Value) : v.asNumber.isShort = v.isShort := by
  rcases v with - | (- | -) | - <;> rfl

theorem beq_bool (v : Value) (b : Bool) : (v == .bool b) = (v == .int (if b then 1 else 0)) := by
  cases v <;> rfl

theorem keys_beq_bool (key : List Value) (b : Bool) :
    (key == [.bool b]) = (key == [.int (if b then 1 else 0)]) := by
  match key with
  | [] => rfl
  | [v] => exact congrArg (· && true) (beq_bool v b)
  | v :: w :: r => simp [beq_bool]

end Value

theorem Conversion.toInt_eq_error {v : Value} {f : Fault} (h : toInt v = .error f) :
    (∃ text, f = .badValue text) ∨ (∃ text, f = .badType text) ∨ ∃ text, f = .overflow text := by
  have hText : ∀ {base : Nat} {s l : String}, intOfText base s l = .error f →
      ∃ text, f = .badValue text := by
    intro base s l h
    unfold intOfText at h
    split at h
    · cases h
    · cases h
      exact ⟨_, rfl⟩
    · cases h
      exact ⟨_, rfl⟩
  unfold toInt at h
  split at h
  all_goals first
    | exact .inl (hText h)
    | cases h; exact .inl ⟨_, rfl⟩
    | cases h; exact .inr (.inl ⟨_, rfl⟩)
    | cases h; exact .inr (.inr ⟨_, rfl⟩)
    | cases h

namespace Session

/-- The id of the record is a number. -/
def HasNumber (s : Session) (r : Ref) (k : Int) : Prop :=
  Act.Ends (Act.identity r) s (fun v t => t = s ∧ v = .int k) fun _ _ => False

theorem HasNumber.unique {s : Session} {r : Ref} {j k : Int} (hj : s.HasNumber r j)
    (hk : s.HasNumber r k) : j = k := by
  have hboth := hj.and hk
  unfold Act.Ends at hboth
  split at hboth
  · exact Value.int.inj (hboth.1.2.symm.trans hboth.2.2)
  · exact hboth.1.elim

end Session

namespace Catalog

/-- The row of a number is one of a model. -/
def RowOf (c : Catalog) (D : Database) (m : Model) (k : Int) (row : Row) : Prop :=
  D.row? m.rootTable k = some row ∧ c.isKind m row = true

namespace Drafts

variable {c : Catalog} {D : Database} {s : Session} (hs : c.Drafts D s) {r : Ref}
  {root : String} {k : Int}

include hs

/-- The id of the record of a row is the number of the row. -/
theorem hasNumber (h : s.Holds r root k) : s.HasNumber r k := by
  obtain ⟨e, he, rfl, -, -, hk⟩ := h
  unfold Session.HasNumber Act.identity Act.entry
  rw [bind_assoc, Act.ends_bind, Act.ends_get, hs.known?_eq he, pure_bind, hk]
  exact ⟨rfl, rfl⟩

end Drafts

end Catalog

namespace Act

variable {c : Catalog} {m : Model}

/-! ## Ids as keys -/

section

variable (hp : c.Plain) (hm : m ∈ c.models)

include hp hm

/-- The key of an id is the number that the id is converted to. -/
theorem exists_keyOf?_eq (id : Value) : ∃ name, keyOf? c m id =
    match ColumnType.integer.parse c.hasRoom name id with
    | .ok v => .ok (if [v] == [.null] then none else some [v])
    | .error (.invalid _) => .ok none
    | .error f => .error f := by
  obtain ⟨x, hx, htype⟩ := List.map_eq_singleton_iff.1 (hp.keyTypes m hm)
  refine ⟨x.name, ?_⟩
  simp only [keyOf?, keyParts, hx, List.length_singleton, Nat.le_refl, if_true,
    List.zip_cons_cons, List.zip_nil_left, keyValues, htype]
  cases ColumnType.integer.parse c.hasRoom x.name id with
  | ok v => rfl
  | error f => cases f <;> rfl

theorem keyOf?_of_means {id : Value} {k : Int} (hid : ∀ b, id ≠ .bool b) (h : id.Means k) :
    keyOf? c m id = .ok (some [.int k]) := by
  obtain ⟨name, hkey⟩ := exists_keyOf?_eq hp hm id
  have hparse : ColumnType.integer.parse c.hasRoom name id = .ok (.int k) := by
    unfold ColumnType.parse ColumnType.convert
    rw [h]
    cases id with
    | int n => exact congrArg (Except.ok ∘ Value.int) (Except.ok.inj h)
    | null => cases h
    | bool b => exact absurd rfl (hid b)
    | _ => rfl
  rw [hkey, hparse]
  rfl

theorem keyOf?_bool (b : Bool) : keyOf? c m (.bool b) = .ok (some [.bool b]) := by
  obtain ⟨name, hkey⟩ := exists_keyOf?_eq hp hm (.bool b)
  rw [hkey]
  cases b <;> rfl

theorem keyOf?_of_overflow {id : Value} {text : String}
    (h : Conversion.toInt id = .error (.overflow text)) :
    keyOf? c m id = .error (.overflow text) := by
  obtain ⟨name, hkey⟩ := exists_keyOf?_eq hp hm id
  rw [hkey]
  unfold ColumnType.parse ColumnType.convert
  rw [h]
  cases id <;> first | rfl | cases h

/-- What means no number is no key, or it is refused because it cannot be written. -/
theorem keyOf?_of_meaningless {id : Value} {f : Fault} (h : Conversion.toInt id = .error f)
    (hf : ∀ text, f ≠ .overflow text) :
    keyOf? c m id = if id.isShort then .ok none else .error .tooLong := by
  obtain ⟨name, hkey⟩ := exists_keyOf?_eq hp hm id
  have hrefused : id.isNull = true ∨ ∃ reason, ColumnType.integer.parse c.hasRoom name id =
      .error (Conversion.refusal name id reason) := by
    unfold ColumnType.parse ColumnType.convert
    rw [h]
    obtain ⟨text, rfl⟩ | ⟨text, rfl⟩ | ⟨text, rfl⟩ := Conversion.toInt_eq_error h
    · cases id <;> first | exact .inl rfl | exact .inr ⟨_, rfl⟩ | cases h
    · cases id <;> first | exact .inl rfl | exact .inr ⟨_, rfl⟩ | cases h
    · exact absurd rfl (hf text)
  rw [hkey]
  rcases hrefused with hnull | ⟨reason, hparse⟩
  · cases id <;> first | rfl | cases hnull
  · rw [hparse, Conversion.refusal, Value.toText]
    cases id.isShort <;> rfl

/-- An id is the key of the number that it means, or it is no key, or it is refused. -/
theorem keyOf?_cases {id : Value} (hid : ∀ b, id ≠ .bool b) :
    (∃ k, id.Means k ∧ keyOf? c m id = .ok (some [.int k])) ∨
      (∀ k, ¬id.Means k) ∧ (¬id.IsTooLarge ∧ keyOf? c m id = .ok none ∨
        id.IsTooLarge ∧ ∃ f, keyOf? c m id = .error f) := by
  cases hint : Conversion.toInt id with
  | ok k => exact .inl ⟨k, hint, keyOf?_of_means hp hm hid hint⟩
  | error f =>
    have hno : ∀ k, ¬id.Means k := fun k hk => by cases hk.symm.trans hint
    refine .inr ⟨hno, ?_⟩
    by_cases hf : ∃ text, f = .overflow text
    · obtain ⟨text, rfl⟩ := hf
      exact .inr ⟨.inl ⟨text, hint⟩, _, keyOf?_of_overflow hp hm hint⟩
    have hkey := keyOf?_of_meaningless hp hm hint fun text h => hf ⟨text, h⟩
    cases hshort : id.isShort with
    | false =>
      rw [hshort] at hkey
      exact .inr ⟨.inr (.inr hshort), _, hkey⟩
    | true =>
      rw [hshort] at hkey
      refine .inl ⟨?_, hkey⟩
      rintro (⟨text, htext⟩ | ⟨k, hk, -⟩ | hlong)
      · exact hf ⟨text, Except.error.inj (hint.symm.trans htext)⟩
      · exact hno k hk
      · cases hshort.symm.trans hlong

end

/-! ## Looking up -/

theorem identified?_bool (s : Session) (root : String) (b : Bool) :
    s.identified? root [.bool b] = s.identified? root [.int (if b then 1 else 0)] := by
  simp only [Session.identified?, Value.keys_beq_bool]

theorem find_bool (c : Catalog) (m : Model) (b : Bool) :
    find c m [.bool b] = find c m [.int (if b then 1 else 0)] := by
  have hrange : ([.bool b] : List Value).forM checkRange =
      ([.int (if b then 1 else 0)] : List Value).forM checkRange := by
    cases b <;> rfl
  have hrow : row? m.rootTable [.bool b] = row? m.rootTable [.int (if b then 1 else 0)] := by
    simp only [row?, Table.find?, Value.keys_beq_bool]
  simp only [find, fetch, identified?_bool, hrange, hrow]

/-- A boolean is looked up as the number that it counts as. -/
theorem lookup_asNumber (hp : c.Plain) (t : ResourceType) (id : Value) :
    lookup c t id.asNumber = lookup c t id := by
  cases id with
  | bool b =>
    unfold lookup modelOf
    cases hm : t.model.bind c.ofClass? with
    | none => rfl
    | some m =>
      have hmem := ofClass?_mem hm
      have hnumber : keyOf? c m (Value.bool b).asNumber =
          .ok (some [.int (if b then 1 else 0)]) :=
        keyOf?_of_means hp hmem (by simp [Value.asNumber]) rfl
      simp only [hnumber, keyOf?_bool hp hmem, ofExcept_ok, pure_bind, identified?_bool, find_bool]
  | _ => rfl

section

variable {D : Database} {I : Session → Prop} {s : Session} (hI : c.Reading D I) (hp : c.Plain)
  (hD : c.Sound D)

include hI hp hD

/-- Looking up an id finds the record of the row whose number the id means, and nothing where
there is no such row of the model. It fails for what the store cannot hold only. -/
theorem reads_lookupOf {t : ResourceType} (hm : t.model.bind c.ofClass? = some m) (id : Value) :
    Reads I (lookup c t id) s (fun u o => ¬id.IsTooLarge ∧
      (∀ r, o = some r → ∃ k row, id.Means k ∧ c.RowOf D m k row ∧ u.Holds r m.rootTable k) ∧
      (o = none → ∀ k row, id.Means k → ¬c.RowOf D m k row)) id.IsTooLarge := by
  have hmem := ofClass?_mem hm
  have hbool : ∀ b, id.asNumber ≠ .bool b := by
    intro b
    cases id <;> simp [Value.asNumber]
  have hsame : (∀ k, id.asNumber.Means k ↔ id.Means k) ∧
      (id.asNumber.IsTooLarge ↔ id.IsTooLarge) := by
    simp only [Value.Means, Value.IsTooLarge, Value.toInt_asNumber, Value.isShort_asNumber,
      implies_true, and_self]
  have hkeys := keyOf?_cases hp hmem hbool
  simp only [hsame] at hkeys
  rw [← lookup_asNumber hp t id]
  refine (reads_lookup hI hp hD t id.asNumber).imp (fun u o hu _ h => ?_) fun hlarge => ?_
  · obtain ⟨m', hm', hsome, hfound, key, hok⟩ := h
    obtain rfl := Option.some.inj (hm.symm.trans hm')
    obtain ⟨k, hk, hkey⟩ | ⟨hno, ⟨hsmall, hnone⟩ | ⟨-, f, hf⟩⟩ := hkeys
    · have hfound := hfound _ hkey
      refine ⟨hk.not_tooLarge (hfound.inRange k rfl), ?_, ?_⟩
      · rintro r rfl
        obtain ⟨j, hj, hjk⟩ := hfound.holds r rfl
        obtain rfl := hjk k rfl
        obtain ⟨row, hrow⟩ := (hI.drafts hu).exists_row hj
        exact ⟨j, row, hk, ⟨hrow, hfound.kind j row rfl hrow rfl⟩, hj⟩
      · rintro rfl j row hj ⟨hrow, hkind⟩
        obtain rfl := hj.unique hk
        cases hfound.isSome j row rfl hrow hkind
    · have honone : o = none := Option.not_isSome_iff_eq_none.1 fun h => by
        obtain ⟨vs, hvs⟩ := hsome h
        cases hnone.symm.trans hvs
      subst honone
      exact ⟨hsmall, nofun, fun _ k _ hk => absurd hk (hno k)⟩
    · cases hf.symm.trans hok
  · obtain ⟨k, hk, hkey⟩ | ⟨-, ⟨-, hnone⟩ | ⟨hlarge, -⟩⟩ := hkeys
    · obtain ⟨vs, hvs, ⟨n, hn, hlarge⟩ | ⟨t, ht⟩⟩ := hlarge m _ hm hkey
      · obtain rfl := Option.some.inj hvs
        exact .inr (.inl ⟨n, Value.int.inj (List.mem_singleton.1 hn) ▸ hk, hlarge⟩)
      · obtain rfl := Option.some.inj hvs
        cases List.mem_singleton.1 ht
    · obtain ⟨vs, hvs, -⟩ := hlarge m _ hm hnone
      cases hvs
    · exact hlarge

/-! ## The members of a type -/

/-- The entities are those of all rows of a model. -/
structure Members (g : ResourceGraph Act Ref) (c : Catalog) (D : Database) (t : ResourceType)
    (m : Model) (u : Session) (es : List (Entity Ref)) : Prop where
  entity : ∀ e ∈ es, e = g.entity e.record t ∧
    ∃ k row, c.RowOf D m k row ∧ u.Holds e.record m.rootTable k
  row : ∀ k row, c.RowOf D m k row → ∃ e ∈ es, u.Holds e.record m.rootTable k

variable {reg : Registry} {book : RuleBook}

/-- The entities of a type are those of the rows of its model. -/
theorem reads_collectionOf {t : ResourceType} (hm : t.model.bind c.ofClass? = some m) :
    Reads I ((entitiesOf c reg book).graph.collection t) s
      (fun u x => Members (entitiesOf c reg book).graph c D t m u x.entities) False := by
  refine ((reads_query hI hp hD t).imp (fun _ _ _ _ h => h) fun h => ?_).bind
    fun rs u _ _ ⟨m', hm', hrs⟩ => reads_pure fun _ => ?_
  · cases h.symm.trans hm
  obtain rfl := Option.some.inj (hm.symm.trans hm')
  constructor
  · intro e he
    obtain ⟨r, hr, rfl⟩ := List.mem_map.1 he
    obtain ⟨row, hrow, k, hk, hholds⟩ := exists_of_forall₂_left hrs hr
    obtain ⟨hrow, hkind⟩ := List.mem_filter.1 (Model.mem_inKeyOrder.1 hrow)
    obtain ⟨j, hj, hfound⟩ := hD.exists_key hrow
    obtain rfl := Value.int.inj (hk.symm.trans hj)
    exact ⟨rfl, k, row, ⟨hfound, hkind⟩, hholds⟩
  · rintro k row ⟨hrow, hkind⟩
    obtain ⟨y, hy, hmem, hid⟩ := hD.row?_eq_some.1 hrow
    have hmem : row ∈ m.inKeyOrder ((D.rowsOf m.rootTable).filter (c.isKind m)) :=
      Model.mem_inKeyOrder.2 (List.mem_filter.2 ⟨Database.mem_rowsOf.2 ⟨y, hy, hmem⟩, hkind⟩)
    obtain ⟨r, hr, j, hj, hholds⟩ := exists_of_forall₂_right hrs hmem
    exact ⟨_, List.mem_map_of_mem hr, Value.int.inj (hj.symm.trans hid) ▸ hholds⟩

omit hp hD in
/-- The member of an id is the one whose number the id spells. -/
theorem reads_collectionFind (text root : String) {es : List (Entity Ref)}
    (hes : ∀ e ∈ es, ∃ k, s.Holds e.record root k) :
    Reads I (Collection.find (entitiesOf c reg book).graph text es) s (fun u o => u = s ∧
      (∀ e, o = some e → e ∈ es ∧ ∃ k, text = toString k ∧ s.HasNumber e.record k) ∧
        (o = none → ∀ e ∈ es, ∀ k, s.HasNumber e.record k → text ≠ toString k)) False := by
  induction es with
  | nil => exact reads_pure fun _ => ⟨rfl, by simp⟩
  | cons e es ih =>
    obtain ⟨k, hk⟩ := hes e List.mem_cons_self
    have hid : Reads I (e.idText (entitiesOf c reg book).graph) s (fun u id => u = s ∧
        s.HasNumber e.record k ∧ id = toString k) False := by
      intro hs
      have hnumber := (hI.drafts hs).hasNumber hk
      rw [Entity.idText, ends_bind]
      refine Ends.imp hnumber (fun v t h => ?_) fun _ _ h => h.elim
      obtain ⟨rfl, rfl⟩ := h
      exact ⟨hs, .refl _, rfl, hnumber, rfl⟩
    refine hid.bind ?_
    rintro id _ - - ⟨rfl, hnumber, rfl⟩
    refine reads_ite (fun heq => reads_pure fun _ => ⟨rfl, fun e' he' => ?_, by simp⟩) fun hne => ?_
    · obtain rfl := Option.some.inj he'
      exact ⟨List.mem_cons_self, k, (eq_of_beq heq).symm, hnumber⟩
    · refine (ih fun e he => hes e (List.mem_cons_of_mem _ he)).imp (fun u o _ _ h => ?_) False.elim
      obtain ⟨rfl, hsome, hnone⟩ := h
      refine ⟨rfl, fun e' he' => ?_, fun ho e' he' j hj htext => ?_⟩
      · obtain ⟨hmem, hspelled⟩ := hsome e' he'
        exact ⟨List.mem_cons_of_mem _ hmem, hspelled⟩
      · rcases List.mem_cons.1 he' with rfl | he'
        · exact hne (beq_of_eq (by rw [htext, hnumber.unique hj]))
        · exact hnone ho e' he' j hj htext

/-! ## Both ways -/

/-- The two ways from an id to an entity of some members agree as far as the id is spelled like
the number that it means: one takes the member whose number the id means, the other the member
whose number the id spells. -/
structure BothWays (u : Session) (id : Value) (found : Option (Entity Ref))
    (members : List (Entity Ref)) (member : Option (Entity Ref)) : Prop where
  fits : ¬id.IsTooLarge
  found : ∀ e, found = some e ↔ e ∈ members ∧ ∃ k, id.Means k ∧ u.HasNumber e.record k
  member : ∀ e, member = some e ↔
    e ∈ members ∧ ∃ k, id.display = toString k ∧ u.HasNumber e.record k
  numbered : ∀ e ∈ members, ∃ k, 1 ≤ k ∧ k < storeIntegerBound ∧ u.HasNumber e.record k

namespace BothWays

variable {u : Session} {id : Value} {found member : Option (Entity Ref)}
  {members : List (Entity Ref)} (h : BothWays u id found members member)
  (hid : id.isDocument = true)

include h hid

omit hI hp hD in
/-- What is found by the number that an id spells is found by the number that it means. -/
theorem found_of_member {e : Entity Ref} (he : member = some e) : found = some e := by
  obtain ⟨hmem, k, hspelled, hk⟩ := (h.member e).1 he
  obtain ⟨j, hlow, hhigh, hj⟩ := h.numbered e hmem
  obtain rfl := hk.unique hj
  exact (h.found e).2 ⟨hmem, k, Value.means_of_display hid (by omega) hhigh hspelled, hk⟩

omit hI hp hD in
/-- Both ways find the same if the id is spelled like the number that it means. -/
theorem eq_of_isSpelled (hspelled : id.IsSpelled) : found = member := by
  cases hmember : member with
  | some e => exact h.found_of_member hid hmember
  | none =>
    refine Option.eq_none_iff_forall_ne_some.2 fun e he => ?_
    obtain ⟨hmem, k, hk, hnumber⟩ := (h.found e).1 he
    have hsome := (h.member e).2 ⟨hmem, k, hspelled k hk, hnumber⟩
    cases hmember.symm.trans hsome

end BothWays

namespace Members

variable {g : ResourceGraph Act Ref} {t : ResourceType} {u : Session} {es : List (Entity Ref)}
  (hu : c.Drafts D u) (h : Members g c D t m u es)

include hu h

omit hI hp hD in
theorem hasNumber {e : Entity Ref} (he : e ∈ es) :
    ∃ k row, c.RowOf D m k row ∧ u.HasNumber e.record k := by
  obtain ⟨-, k, row, hrow, hk⟩ := h.entity e he
  exact ⟨k, row, hrow, hu.hasNumber hk⟩

omit hI hp hD in
/-- There is one member for each number. -/
theorem eq_of_hasNumber {e e' : Entity Ref} (he : e ∈ es) (he' : e' ∈ es) {k : Int}
    (hk : u.HasNumber e.record k) (hk' : u.HasNumber e'.record k) : e = e' := by
  obtain ⟨hentity, i, -, -, hi⟩ := h.entity e he
  obtain ⟨hentity', j, -, -, hj⟩ := h.entity e' he'
  obtain rfl := (hu.hasNumber hi).unique hk
  obtain rfl := (hu.hasNumber hj).unique hk'
  rw [hentity, hentity', hu.eq_of_holds hi hj]

omit hI hp in
/-- The numbers of members are numbers of the store, from one on. -/
theorem number_range {e : Entity Ref} (he : e ∈ es) {k : Int} (hk : u.HasNumber e.record k) :
    1 ≤ k ∧ k < storeIntegerBound := by
  obtain ⟨j, row, hrow, hj⟩ := h.hasNumber hu he
  obtain rfl := hj.unique hk
  exact hD.number_range hrow.1

end Members

/-- The entity of an id is that of the record of the row whose number the id means. -/
theorem reads_lookupEntity {t : ResourceType} (hm : t.model.bind c.ofClass? = some m) (id : Value) :
    Reads I ((entitiesOf c reg book).graph.lookup t id) s (fun u x => ∃ o,
      x = o.map ((entitiesOf c reg book).graph.entity · t) ∧ ¬id.IsTooLarge ∧
      (∀ r, o = some r → ∃ k row, id.Means k ∧ c.RowOf D m k row ∧ u.Holds r m.rootTable k) ∧
      (o = none → ∀ k row, id.Means k → ¬c.RowOf D m k row)) id.IsTooLarge :=
  (reads_lookupOf hI hp hD hm id).bind fun o _ _ _ ho => reads_pure fun _ => ⟨o, rfl, ho⟩

/-- Both ways from an id to an entity of a type end well, unless the store cannot hold what the
id means. -/
theorem reads_bothWays {t : ResourceType} (hm : t.model.bind c.ofClass? = some m) (id : Value) :
    Reads I ((entitiesOf c reg book).graph.bothWays t id) s
      (fun u x => BothWays u id x.1 x.2.1.entities x.2.2) id.IsTooLarge := by
  refine (reads_lookupEntity hI hp hD hm id).bind ?_
  rintro _ u - - ⟨o, rfl, hfits, hsome, hnone⟩
  refine ((reads_collectionOf hI hp hD hm).imp (fun _ _ _ _ h => h) False.elim).bind
    fun x v hv huv hx => ?_
  refine ((reads_collectionFind hI id.display m.rootTable fun e he => ?_).imp
    (fun _ _ _ _ h => h) False.elim).bind fun y w _ _ hy => reads_pure fun _ => ?_
  · obtain ⟨-, k, -, -, hk⟩ := hx.entity e he
    exact ⟨k, hk⟩
  obtain ⟨rfl, hysome, hynone⟩ := hy
  have hnumber : ∀ {r k}, w.Holds r m.rootTable k → w.HasNumber r k := (hI.drafts hv).hasNumber
  refine ⟨hfits, fun e => ⟨fun he => ?_, ?_⟩, fun e => ⟨hysome e, ?_⟩, fun e he => ?_⟩
  · obtain ⟨r, rfl, rfl⟩ := Option.map_eq_some_iff.1 he
    obtain ⟨k, row, hk, hrow, hr⟩ := hsome r rfl
    obtain ⟨e', hmember, hheld⟩ := hx.row k row hrow
    obtain rfl := (hI.drafts hv).eq_of_holds hheld (hr.mono huv)
    exact ⟨(hx.entity e' hmember).1 ▸ hmember, k, hk, hnumber hheld⟩
  · rintro ⟨he, k, hk, hek⟩
    obtain ⟨hentity, j, row, hrow, hj⟩ := hx.entity e he
    obtain rfl := (hnumber hj).unique hek
    cases o with
    | none => exact absurd hrow (hnone rfl j row hk)
    | some r =>
      obtain ⟨i, -, hi, -, hr⟩ := hsome r rfl
      obtain rfl := hi.unique hk
      rw [hentity, ← (hI.drafts hv).eq_of_holds (hr.mono huv) hj]
      rfl
  · rintro ⟨he, k, hspelled, hk⟩
    cases y with
    | none => exact absurd hspelled (hynone rfl e he k hk)
    | some e' =>
      obtain ⟨he', j, hspelled', hj⟩ := hysome e' rfl
      obtain ⟨hlow, -⟩ := hx.number_range hD (hI.drafts hv) he hk
      obtain rfl := eq_of_toString_eq (by omega) (hspelled'.symm.trans hspelled)
      rw [hx.eq_of_hasNumber (hI.drafts hv) he' he hj hk]
  · obtain ⟨k, -, -, hk⟩ := hx.hasNumber (hI.drafts hv) he
    exact ⟨k, (hx.number_range hD (hI.drafts hv) he hk).1,
      (hx.number_range hD (hI.drafts hv) he hk).2, hk⟩

/-! ## Addresses and references -/

/-- The address of an id leads to the record of the row whose number the id means. Where there
is none, nothing is found. -/
theorem ends_entityAt {t : ResourceType} (hm : t.model.bind c.ofClass? = some m) (id : Value)
    (param : String) (hs : I s) :
    Ends (Scope.entity (entitiesOf c reg book).graph [(param, id)] (.type t param)) s
      (fun e u => ∃ k row, id.Means k ∧ c.RowOf D m k row ∧ u.HasNumber e.record k)
      fun f _ => id.IsTooLarge ∨ f = .notFound ∧ ∀ k row, id.Means k → ¬c.RowOf D m k row := by
  have hidOf : Scope.idOf [(param, id)] param = .ok id := by simp [Scope.idOf]
  unfold Scope.entity
  rw [hidOf, monadOfExcept_eq, ofExcept_ok, pure_bind]
  refine (reads_lookupEntity hI hp hD hm id).ends_bind hs ?_ fun _ _ _ h => .inl h
  rintro _ u hu - ⟨o, rfl, -, hsome, hnone⟩
  cases o with
  | none => exact .inr ⟨rfl, hnone rfl⟩
  | some r =>
    obtain ⟨k, row, hk, hrow, hr⟩ := hsome r rfl
    exact ⟨k, row, hk, hrow, (hI.drafts hu).hasNumber hr⟩

/-- A reference is to the record of the row whose number the id means. -/
theorem ends_reference {t : ResourceType} (hm : t.model.bind c.ofClass? = some m) (v : Value)
    (key : String) (errors : Errors) (hs : I s) :
    Ends ((entitiesOf c reg book).refer t key v errors) s
      (fun x u => (∀ r, x.1 = some r → ∃ k row, (Payload.referredId v).Means k ∧
          c.RowOf D m k row ∧ u.HasNumber r k) ∧
        (x.1 = none → ∀ k row, (Payload.referredId v).Means k → ¬c.RowOf D m k row))
      fun _ _ => (Payload.referredId v).IsTooLarge := by
  refine (reads_lookupEntity hI hp hD hm _).ends_bind hs ?_ fun _ _ _ h => h
  rintro _ u hu - ⟨o, rfl, -, hsome, hnone⟩
  cases o with
  | none => exact ⟨nofun, hnone⟩
  | some r =>
    refine ⟨fun r' hr' => ?_, nofun⟩
    obtain rfl : r = r' := Option.some.inj hr'
    obtain ⟨k, row, hk, hrow, hr⟩ := hsome r rfl
    exact ⟨k, row, hk, hrow, (hI.drafts hu).hasNumber hr⟩

end

end Act

end Hypermedia
