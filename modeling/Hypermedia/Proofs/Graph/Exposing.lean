import Hypermedia.Proofs.Graph.Typed

/-!
# Exposure can be computed

Whether the types of a registry present the models of a catalog depends on the declarations
alone: `Catalog.isExposed` computes it (`Catalog.exposed_of_isExposed`).
-/

namespace Hypermedia

/-- Does a condition hold or not of every value? The tests that need a text have one. -/
def Condition.isTotal (x : Condition) : Bool :=
  match x.test, x.operand with
  | .startsWith, .text _ | .contains, .text _ => true
  | .startsWith, _ | .contains, _ => false
  | _, _ => true

theorem Condition.exists_holds {x : Condition} (h : x.isTotal = true) (v : Value) :
    ∃ b, x.test.holds v x.operand = .ok b := by
  obtain ⟨field, test, operand⟩ := x
  cases test <;> cases v <;> first
    | exact ⟨_, rfl⟩
    | cases operand <;> first | exact ⟨_, rfl⟩ | simp [isTotal] at h

namespace Catalog

variable (c : Catalog) (reg : Registry) (book : RuleBook)

/-- The name of the model of a type. -/
def modelName? (t : ResourceType) : Option String := (t.model.bind c.ofClass?).map Model.name

/-- The name of the model of what a target means. -/
def targetModel? (x : Target) : Option String :=
  match reg.resolve x with
  | .ok t => c.modelName? t
  | .error _ => none

/-- Is a relationship of a type a link of the model? -/
def presentsLink (m : Model) (rel : Relationship) : Bool :=
  (m.link? rel.name).any fun l =>
    rel.inverse == l.inverse && rel.isMany == l.isList &&
      c.targetModel? reg rel.target == some l.target &&
      (!rel.required || rel.isMany ||
        (match l.kind with
        | .reference column => (m.column? column).any fun x => !x.column.isNullable
        | _ => false))

/-- Does a finder of a type look through a list of the model and at a column, and find what it
says? -/
def presentsFinder (m : Model) (f : Finder) : Bool :=
  match f.rule with
  | .select (some name) filter _ =>
    (m.link? name).any fun l => l.isList && c.targetModel? reg f.target == some l.target &&
      filter.all fun x => x.isTotal && (c.model? l.target).any fun n => (n.column? x.field).isSome
  | _ => false

/-- Is a property of a type a column of the model? -/
def presentsColumn (m : Model) (p : Property) : Bool :=
  (m.column? p.name).any (fun x => !p.required || !x.column.isNullable) &&
    (!p.isWritable || (m.link? p.name).isNone && (m.column? p.name).all fun x => m.isOwn x.column)

/-- Does a rule of a type look at a text that clients may write? -/
def presentsRule (m : Model) (v : Validator) : Bool :=
  !v.default &&
    (match book.get v.rule with
    | .ok rule =>
      (m.column? rule.field).any fun x => m.isOwn x.column && x.column.type == .string
    | .error _ => false)

/-- Does a type present a model? -/
def isPresented (t : ResourceType) (m : Model) : Bool :=
  t.isAbstract != m.isBuilt && t.properties.all (presentsColumn m) &&
    t.relationships.all (c.presentsLink reg m) && t.finders.all (c.presentsFinder reg m) &&
    t.validators.all (presentsRule book m)

/-- Do the types of the registry present the models of the catalog? -/
def isExposed : Bool :=
  (reg.types.all fun t => (t.model.bind c.ofClass?).any fun m =>
    c.isPresented reg book t m &&
      (c.isAlone m || t.relationships.isEmpty && t.finders.isEmpty)) &&
    c.models.all fun m => (reg.typeOf? m.recordClass).any fun t => c.modelName? t == some m.name

variable {c reg book} {t : ResourceType} {m : Model}

theorem eq_of_name_eq (hp : c.Plain) {m n : Model} (hm : m ∈ c.models) (hn : n ∈ c.models)
    (h : m.name = n.name) : m = n :=
  List.inj_on_of_nodup_map hp.model_names hm hn h

/-- What a target means has the model of the link. -/
theorem targetModel?_eq_some (hp : c.Plain) {x : Target} {l : Link}
    (hl : ∃ n, c.model? l.target = some n) (h : c.targetModel? reg x = some l.target) :
    ∃ t, reg.resolve x = .ok t ∧ t.model.bind c.ofClass? = c.model? l.target := by
  obtain ⟨n, hn⟩ := hl
  unfold targetModel? at h
  split at h
  · next t ht =>
    obtain ⟨m, hm, hname⟩ := Option.map_eq_some_iff.1 h
    obtain ⟨hnmem, hnname⟩ := model?_mem hn
    refine ⟨t, ht, ?_⟩
    rw [hm, hn, eq_of_name_eq hp (Act.ofClass?_mem hm) hnmem (hname.trans hnname.symm)]
  · cases h

section

variable {p : Property} {rel : Relationship} {f : Finder} {v : Validator}

theorem column_of_presentsColumn (h : presentsColumn m p = true) : ∃ x, m.column? p.name = some x ∧
    (p.required = true → x.column.isNullable = false) := by
  simp only [presentsColumn, Bool.and_eq_true, Option.any_eq_true] at h
  obtain ⟨⟨x, hx, hrequired⟩, -⟩ := h
  exact ⟨x, hx, fun hr => by simpa [hr] using hrequired⟩

theorem isOwn_of_presentsColumn (h : presentsColumn m p = true) (hw : p.isWritable = true) :
    m.link? p.name = none ∧ ∀ x, m.column? p.name = some x → m.isOwn x.column = true := by
  simp only [presentsColumn, hw, Bool.and_eq_true, Bool.not_true, Bool.false_or,
    Option.isNone_iff_eq_none, Option.all_eq_true] at h
  exact h.2

/-- The target of a link of a model is a model. -/
theorem Plain.exists_target (hp : c.Plain) (hm : m ∈ c.models) {name : String} {l : Link}
    (hl : m.link? name = some l) : ∃ n, c.model? l.target = some n :=
  (hp.linkSpec hm (List.mem_of_find?_eq_some hl)).imp fun _ h => h.1

theorem link_of_presentsLink (hp : c.Plain) (hm : m ∈ c.models)
    (h : c.presentsLink reg m rel = true) : ∃ l t', m.link? rel.name = some l ∧
      rel.inverse = l.inverse ∧ rel.isMany = l.isList ∧ reg.resolve rel.target = .ok t' ∧
        t'.model.bind c.ofClass? = c.model? l.target := by
  obtain ⟨l, hl, hcheck⟩ := (Option.any_eq_true _ _).1 h
  simp only [Bool.and_eq_true, beq_iff_eq] at hcheck
  obtain ⟨⟨⟨hinverse, hmany⟩, hmeans⟩, -⟩ := hcheck
  obtain ⟨t', ht', heq⟩ := targetModel?_eq_some hp (hp.exists_target hm hl) hmeans
  exact ⟨l, t', hl, hinverse, hmany, ht', heq⟩

/-- A relationship to one that is required is a reference that is not empty. -/
theorem reference_of_presentsLink (h : c.presentsLink reg m rel = true)
    (hrequired : rel.required = true) (hone : rel.isMany = false) :
    ∃ l column x, m.link? rel.name = some l ∧ l.kind = .reference column ∧
      m.column? column = some x ∧ x.column.isNullable = false := by
  obtain ⟨l, hl, hcheck⟩ := (Option.any_eq_true _ _).1 h
  simp only [Bool.and_eq_true, hrequired, hone, Bool.not_true, Bool.false_or] at hcheck
  have hkind := hcheck.2
  split at hkind
  · next column hcolumn =>
    obtain ⟨x, hx, hnull⟩ := (Option.any_eq_true _ _).1 hkind
    exact ⟨l, column, x, hl, hcolumn, hx, by simpa using hnull⟩
  · cases hkind

theorem finder_of_presentsFinder (hp : c.Plain) (hm : m ∈ c.models)
    (h : c.presentsFinder reg m f = true) : ∃ t' name filter isReversed l,
      reg.resolve f.target = .ok t' ∧ f.rule = .select (some name) filter isReversed ∧
        m.link? name = some l ∧ l.isList = true ∧
          t'.model.bind c.ofClass? = c.model? l.target ∧
            ∀ x ∈ filter, (∃ n, c.model? l.target = some n ∧ ∃ y, n.column? x.field = some y) ∧
              ∀ v, ∃ b, x.test.holds v x.operand = .ok b := by
  unfold presentsFinder at h
  split at h
  · next name filter isReversed hrule =>
    obtain ⟨l, hl, hcheck⟩ := (Option.any_eq_true _ _).1 h
    simp only [Bool.and_eq_true, beq_iff_eq] at hcheck
    obtain ⟨⟨hlist, hmeans⟩, hfilter⟩ := hcheck
    obtain ⟨t', ht', heq⟩ := targetModel?_eq_some hp (hp.exists_target hm hl) hmeans
    refine ⟨t', name, filter, isReversed, l, ht', hrule, hl, hlist, heq, fun x hx => ?_⟩
    obtain ⟨htotal, hcolumn⟩ :=
      Bool.and_eq_true_iff.1 ((Option.all_eq_true _ _).1 hfilter x hx)
    obtain ⟨n, hn, hsome⟩ := (Option.any_eq_true _ _).1 hcolumn
    exact ⟨⟨n, hn, Option.isSome_iff_exists.1 hsome⟩, Condition.exists_holds htotal⟩
  · cases h

theorem rule_of_presentsRule (h : presentsRule book m v = true) :
    v.default = false ∧ ∃ rule x, book.get v.rule = .ok rule ∧
      m.column? rule.field = some x ∧ m.isOwn x.column = true ∧ x.column.type = .string := by
  simp only [presentsRule, Bool.and_eq_true, Bool.not_eq_true'] at h
  obtain ⟨hdefault, hrule⟩ := h
  split at hrule
  · next rule hget =>
    obtain ⟨x, hx, hcheck⟩ := (Option.any_eq_true _ _).1 hrule
    simp only [Bool.and_eq_true, beq_iff_eq] at hcheck
    exact ⟨hdefault, rule, x, hget, hx, hcheck.1, hcheck.2⟩
  · cases hrule

end

/-- A type presents a model if the check says so. -/
theorem presents_of_isPresented (hp : c.Plain) (hmodel : t.model.bind c.ofClass? = some m)
    (h : c.isPresented reg book t m = true) : c.Presents reg book t m := by
  simp only [isPresented, Bool.and_eq_true, List.all_eq_true] at h
  obtain ⟨⟨⟨⟨hbuilt, hcolumns⟩, hlinks⟩, hfinders⟩, hrules⟩ := h
  have hm := Act.ofClass?_mem hmodel
  exact
    { model := hmodel
      built := by intro hconcrete; simpa [hconcrete] using hbuilt
      concrete := by intro hb; simpa [hb] using hbuilt
      property := fun p hwritable =>
        have hp := List.mem_filter.1 hwritable
        isOwn_of_presentsColumn (hcolumns p hp.1) hp.2
      column := fun p hp => column_of_presentsColumn (hcolumns p hp)
      relationship := fun rel hrel => by
        obtain ⟨l, t', hl, hinverse, hmany, ht', heq⟩ :=
          link_of_presentsLink hp hm (hlinks rel hrel)
        exact ⟨l, hl, hinverse, hmany, fun t'' h => Except.ok.inj (ht'.symm.trans h) ▸ heq⟩
      target := fun rel hrel => by
        obtain ⟨l, t', -, -, -, ht', -⟩ := link_of_presentsLink hp hm (hlinks rel hrel)
        exact ⟨t', ht'⟩
      required := fun rel hrel => reference_of_presentsLink (hlinks rel hrel)
      finder := fun f hf => finder_of_presentsFinder hp hm (hfinders f hf)
      rule := fun v hv => rule_of_presentsRule (hrules v hv) }

/-- The registry exposes the catalog if the check says so. -/
theorem exposed_of_isExposed (hp : c.Plain) (h : c.isExposed reg book = true) :
    c.Exposed reg book := by
  simp only [isExposed, Bool.and_eq_true, List.all_eq_true] at h
  obtain ⟨htypes, hmodels⟩ := h
  have htype : ∀ t ∈ reg.types, ∃ m, t.model.bind c.ofClass? = some m ∧
      c.Presents reg book t m ∧ (t.relationships ≠ [] ∨ t.finders ≠ [] → c.isAlone m = true) := by
    intro t ht
    obtain ⟨m, hm, hcheck⟩ := (Option.any_eq_true _ _).1 (htypes t ht)
    simp only [Bool.and_eq_true, Bool.or_eq_true, List.isEmpty_iff] at hcheck
    refine ⟨m, hm, presents_of_isPresented hp hm hcheck.1, fun hsome => ?_⟩
    exact hcheck.2.resolve_right fun hnone => hsome.elim (· hnone.1) (· hnone.2)
  exact
    { presents := fun t ht => (htype t ht).imp fun _ h => h.2.1
      typeOf := by
        intro m hm
        obtain ⟨t, ht, hname⟩ := (Option.any_eq_true _ _).1 (hmodels m hm)
        obtain ⟨n, hn, hnname⟩ := Option.map_eq_some_iff.1 (eq_of_beq hname)
        exact ⟨t, ht, eq_of_name_eq hp (Act.ofClass?_mem hn) hm hnname ▸ hn⟩
      alone := by
        intro t ht hsome m hm
        obtain ⟨n, hn, -, halone⟩ := htype t ht
        exact Option.some.inj (hn.symm.trans hm) ▸ halone hsome }

end Catalog

end Hypermedia
