import Hypermedia.Proofs.Graph.Forms
import Hypermedia.Proofs.Validation.Regrouping

/-!
# Errors instead of full forms

What is wrong with an entity is reported by its payload, by its type if that is abstract, by
the required fields that are blank, and by the rules that are checked in a context
(`Entity.Reports`); the errors of the entity tell just that (`Entity.tells_errors`). Whether an
entity is valid and how it is shown are computed apart: validity goes from one context to the
next, while the renderer puts the errors of two contexts together. Still the renderer shows
errors exactly if the entity is not valid (`Renderer.shown_iff_valid`), and the errors are those
of both contexts (`Entity.Collects`), the same as if all of them were put together at once
(`Renderer.gateErrors_eq_merge`).
-/

namespace Hypermedia

variable {R : Type} (g : ResourceGraph (Except Fault) R) (e : Entity R)

/-- A field that an entity must have is blank. -/
inductive Entity.IsBlank : (name : String) → Prop
  /-- A required property has no value. -/
  | property {p v} : p ∈ e.type.properties → p.required = true →
      g.storage.value e.record p.name = .ok v → v.isNull = true → IsBlank p.name
  /-- A required relationship leads nowhere. -/
  | relationship {rel x} : rel ∈ e.type.relationships → rel.required = true →
      g.storage.related e.record rel = .ok x → x.isNothing = true → IsBlank rel.name

/-- What is wrong with an entity apart from the rules of its type: the message that is reported
for a field. -/
inductive Entity.ReportsOwn : (field message : String) → Prop
  /-- The payload that the entity was made from had errors. -/
  | payload {field message} : e.payloadErrors.Tells field message → ReportsOwn field message
  /-- There are no entities of an abstract type itself. -/
  | isAbstract : e.type.isAbstract = true →
      ReportsOwn "type" "Cannot save an abstract entity type"
  | blank {name} : e.IsBlank g name → ReportsOwn name s!"{name} must not be blank"

/-- What is reported for a field of an entity in a context. -/
inductive Entity.Reports : Context → (field message : String) → Prop
  /-- What is wrong apart from the rules is so by default. -/
  | own {field message} : e.ReportsOwn g field message → Reports .default field message
  /-- A rule that is checked in the context reports it. -/
  | rule {c field message v verdict es} : v ∈ e.type.validators → v.applies c = true →
      g.judge v.rule e = .ok verdict → Errors.ofVerdict verdict = .ok es →
      es.Tells field message → Reports c field message

/-- The errors have each message of the default context and of another one once, those of the
default context first. -/
structure Entity.Collects (c : Context) (es : Errors) : Prop where
  distinct : es.IsDistinct
  tells : ∀ field message, es.Tells field message ↔
    e.Reports g .default field message ∨ e.Reports g c field message
  first : ∃ first, e.errors g .default = .ok first ∧ first.IsStartOf es

variable {g e} {c : Context}

namespace Entity

/-! ## What the errors tell -/

theorem mem_blanks {names : List String} (h : e.blanks g = .ok names) {name : String} :
    name ∈ names ↔ e.IsBlank g name := by
  obtain ⟨ps, hps, h⟩ := bind_eq_ok.1 h
  obtain ⟨rels, hrels, h⟩ := bind_eq_ok.1 h
  obtain rfl := pure_eq_ok.1 h
  rw [List.mem_append, List.mem_map, List.mem_map]
  simp only [mem_of_filterM hps, mem_of_filterM hrels, List.mem_filter, bind_eq_ok, pure_eq_ok]
  constructor
  · rintro (⟨p, ⟨⟨hp, hrequired⟩, v, hv, hnull⟩, rfl⟩ | ⟨rel, ⟨⟨hrel, hrequired⟩, x, hx, hno⟩, rfl⟩)
    · exact .property hp hrequired hv hnull
    · exact .relationship hrel hrequired hx hno
  · rintro (⟨hp, hrequired, hv, hnull⟩ | ⟨hrel, hrequired, hx, hno⟩)
    · exact .inl ⟨_, ⟨⟨hp, hrequired⟩, _, hv, hnull⟩, rfl⟩
    · exact .inr ⟨_, ⟨⟨hrel, hrequired⟩, _, hx, hno⟩, rfl⟩

theorem tells_blanks {names : List String} {field message : String} :
    Errors.Tells (names.map fun name => (name, [s!"{name} must not be blank"])) field message ↔
      field ∈ names ∧ message = s!"{field} must not be blank" := by
  simp only [Errors.Tells, List.mem_map]
  constructor
  · rintro ⟨messages, ⟨name, hname, heq⟩, hmessage⟩
    obtain ⟨rfl, rfl⟩ := Prod.mk.inj heq
    exact ⟨hname, List.mem_singleton.1 hmessage⟩
  · rintro ⟨hfield, rfl⟩
    exact ⟨_, ⟨field, hfield, rfl⟩, List.mem_singleton_self _⟩

theorem tells_ownErrors {own : List Errors} (h : e.ownErrors g = .ok own)
    {field message : String} :
    (∃ es ∈ own, es.Tells field message) ↔ e.ReportsOwn g field message := by
  obtain ⟨names, hnames, h⟩ := bind_eq_ok.1 h
  obtain rfl := pure_eq_ok.1 h
  have habstract : (∃ es ∈ (if e.type.isAbstract then
      [[("type", ["Cannot save an abstract entity type"])]] else [] : List Errors),
        es.Tells field message) ↔ e.type.isAbstract = true ∧ field = "type" ∧
          message = "Cannot save an abstract entity type" := by
    cases e.type.isAbstract with
    | true => simp [Errors.Tells]
    | false => simp
  simp only [List.mem_append, List.mem_cons, List.not_mem_nil, or_false, or_and_right, exists_or,
    exists_eq_left, habstract, tells_blanks, mem_blanks hnames]
  constructor
  · rintro ((hpayload | ⟨h, rfl, rfl⟩) | ⟨hblank, rfl⟩)
    · exact .payload hpayload
    · exact .isAbstract h
    · exact .blank hblank
  · rintro (hpayload | h | hblank)
    · exact .inl (.inl hpayload)
    · exact .inl (.inr ⟨h, rfl, rfl⟩)
    · exact .inr ⟨hblank, rfl⟩

/-- What a rule says of an entity. -/
theorem verdict_eq_ok {v : Validator} {es : Errors} : (do
    let verdict ← g.judge v.rule e
    MonadExcept.ofExcept (Errors.ofVerdict verdict)) = .ok es ↔ ∃ verdict,
      g.judge v.rule e = .ok verdict ∧ Errors.ofVerdict verdict = .ok es := by
  simp only [bind_eq_ok, ofExcept_eq]

theorem tells_verdicts {ruled : List Errors} (h : e.verdicts g c = .ok ruled)
    {field message : String} :
    (∃ es ∈ ruled, es.Tells field message) ↔ ∃ v ∈ e.type.validators, v.applies c = true ∧
      ∃ verdict es, g.judge v.rule e = .ok verdict ∧ Errors.ofVerdict verdict = .ok es ∧
        es.Tells field message := by
  have hruled := mapM_eq_ok.1 h
  constructor
  · rintro ⟨es, hes, htells⟩
    obtain ⟨v, hv, hreported⟩ := exists_of_forall₂_right hruled hes
    obtain ⟨hv, happlies⟩ := List.mem_filter.1 hv
    obtain ⟨verdict, hverdict, hreported⟩ := verdict_eq_ok.1 hreported
    exact ⟨v, hv, happlies, verdict, es, hverdict, hreported, htells⟩
  · rintro ⟨v, hv, happlies, verdict, es, hverdict, hreported, htells⟩
    obtain ⟨es', hes', hreported'⟩ :=
      exists_of_forall₂_left hruled (List.mem_filter.2 ⟨hv, happlies⟩)
    obtain rfl := Except.ok.inj (hreported'.symm.trans (verdict_eq_ok.2 ⟨_, hverdict, hreported⟩))
    exact ⟨es', hes', htells⟩

/-- The errors of a context are what is wrong by default, if it is the default one, and what the
rules say. -/
theorem errors_eq_ok {es : Errors} (h : e.errors g c = .ok es) : ∃ own ruled,
    (if c = .default then e.ownErrors g else pure []) = .ok own ∧ e.verdicts g c = .ok ruled ∧
      es = Errors.merge (own ++ ruled) := by
  unfold errors at h
  split at h <;> next hc =>
    obtain ⟨own, hown, h⟩ := bind_eq_ok.1 h
    obtain ⟨ruled, hruled, h⟩ := bind_eq_ok.1 h
    exact ⟨own, ruled, by simpa [hc] using hown, hruled, (pure_eq_ok.1 h).symm⟩

/-- The errors of an entity tell what is reported, and nothing else. -/
theorem tells_errors {es : Errors} (h : e.errors g c = .ok es) {field message : String} :
    es.Tells field message ↔ e.Reports g c field message := by
  obtain ⟨own, ruled, hown, hruled, rfl⟩ := errors_eq_ok h
  simp only [Errors.tells_merge, List.mem_append, or_and_right, exists_or, tells_verdicts hruled]
  have htells : (∃ es ∈ own, es.Tells field message) ↔
      c = .default ∧ e.ReportsOwn g field message := by
    by_cases hc : c = .default
    · rw [tells_ownErrors ((if_pos hc).symm.trans hown)]
      exact (and_iff_right hc).symm
    · obtain rfl := pure_eq_ok.1 ((if_neg hc).symm.trans hown)
      simp [hc]
  rw [htells]
  constructor
  · rintro (⟨rfl, hreports⟩ | ⟨v, hv, happlies, verdict, es, hverdict, hes, htells⟩)
    · exact .own hreports
    · exact .rule hv happlies hverdict hes htells
  · rintro (hreports | ⟨hv, happlies, hverdict, hes, htells⟩)
    · exact .inl ⟨rfl, hreports⟩
    · exact .inr ⟨_, hv, happlies, _, _, hverdict, hes, htells⟩

theorem isDistinct_errors {es : Errors} (h : e.errors g c = .ok es) : es.IsDistinct := by
  obtain ⟨own, ruled, -, -, rfl⟩ := errors_eq_ok h
  exact Errors.isDistinct_merge _

end Entity

/-! ## The renderer and validity -/

namespace Renderer

variable {w : Renderer} {one : Entity R → Except Fault Representation}
  {many : Collection R → Except Fault Representation} {es : Errors}

/-- The errors that the renderer shows are those of the default context and of another one. -/
theorem collects_of_gateErrors (h : gateErrors g e c = .ok es) : e.Collects g c es := by
  obtain ⟨first, hfirst, h⟩ := bind_eq_ok.1 h
  split at h
  · next hc =>
    obtain rfl := pure_eq_ok.1 h
    exact ⟨Entity.isDistinct_errors hfirst,
      fun field message => by rw [Entity.tells_errors hfirst, hc, or_self],
      first, hfirst, .refl first⟩
  · obtain ⟨more, hmore, h⟩ := bind_eq_ok.1 h
    obtain rfl := pure_eq_ok.1 h
    refine ⟨Errors.isDistinct_merge _, fun field message => ?_, first, hfirst,
      Errors.isStartOf_merge (Entity.isDistinct_errors hfirst) more⟩
    simp [Errors.tells_merge, Entity.tells_errors hfirst, Entity.tells_errors hmore]

/-- The renderer puts together what was put together in each context, and finds what comes of
putting together at once all that the entity and its rules say. -/
theorem gateErrors_eq_merge (h : gateErrors g e c = .ok es) : ∃ own ruled more,
    e.ownErrors g = .ok own ∧ e.verdicts g .default = .ok ruled ∧
      (if c = .default then pure [] else e.verdicts g c) = .ok more ∧
      es = Errors.merge (own ++ ruled ++ more) := by
  obtain ⟨first, hfirst, h⟩ := bind_eq_ok.1 h
  obtain ⟨own, ruled, hown, hruled, rfl⟩ := Entity.errors_eq_ok hfirst
  split at h
  · next hc =>
    obtain rfl := pure_eq_ok.1 h
    exact ⟨own, ruled, [], hown, hruled, if_pos hc, by rw [List.append_nil]⟩
  · next hc =>
    obtain ⟨second, hsecond, h⟩ := bind_eq_ok.1 h
    obtain rfl := pure_eq_ok.1 h
    obtain ⟨none, more, hnone, hmore, rfl⟩ := Entity.errors_eq_ok hsecond
    obtain rfl := pure_eq_ok.1 ((if_neg hc).symm.trans hnone)
    have hgroups := Errors.merge_map_merge [own ++ ruled, more]
    rw [List.flatten_cons, List.flatten_singleton] at hgroups
    exact ⟨own, ruled, more, hown, hruled, (if_neg hc).trans hmore, hgroups⟩

/-- An entity is valid by default and in another context exactly if the renderer finds no
errors. -/
theorem valid_iff_gateErrors (h : gateErrors g e c = .ok es) {valid : Bool}
    (hvalid : e.valid g [.default, c] = .ok valid) : valid = true ↔ es = [] := by
  obtain ⟨first, hfirst, h⟩ := bind_eq_ok.1 h
  obtain ⟨first', hfirst', hvalid⟩ := bind_eq_ok.1 hvalid
  obtain rfl := Except.ok.inj (hfirst.symm.trans hfirst')
  cases hempty : first.isEmpty with
  | false =>
    -- Validity has been decided, but the renderer still goes on.
    obtain rfl := pure_eq_ok.1 ((if_neg (by simp [hempty])).symm.trans hvalid)
    have hne : first ≠ [] := by simpa using hempty
    split at h
    · obtain rfl := pure_eq_ok.1 h
      simpa using hne
    · obtain ⟨more, -, h⟩ := bind_eq_ok.1 h
      obtain rfl := pure_eq_ok.1 h
      simp [Errors.merge_eq_nil, hne]
  | true =>
    rw [if_pos hempty] at hvalid
    obtain rfl := List.isEmpty_iff.1 hempty
    obtain ⟨more, hmore, hvalid⟩ := bind_eq_ok.1 hvalid
    have hmore_iff : valid = true ↔ more = [] := by
      cases more with
      | nil => simpa [Entity.validIn, eq_comm] using pure_eq_ok.1 hvalid
      | cons => simpa [eq_comm] using pure_eq_ok.1 hvalid
    rw [hmore_iff]
    split at h
    · next hc =>
      obtain rfl := pure_eq_ok.1 h
      rw [hc, hfirst] at hmore
      simp [← Except.ok.inj hmore]
    · obtain ⟨more', hmore', h⟩ := bind_eq_ok.1 h
      obtain rfl := pure_eq_ok.1 h
      obtain rfl := Except.ok.inj (hmore.symm.trans hmore')
      simp [Errors.merge_eq_nil]

/-- An entity is shown with its errors if there are any, else in full. -/
theorem gated_eq_ok {x : Representation} (h : w.gated g one many e c = .ok x) :
    ∃ es, gateErrors g e c = .ok es ∧
      (es ≠ [] ∧ x = .ofErrors es ∨ es = [] ∧ w.full g one many e = .ok x) := by
  obtain ⟨es, hes, h⟩ := bind_eq_ok.1 h
  refine ⟨es, hes, ?_⟩
  split at h
  · next hempty => exact .inr ⟨List.isEmpty_iff.1 hempty, h⟩
  · next hempty => exact .inl ⟨by simpa using hempty, (pure_eq_ok.1 h).symm⟩

theorem gated_of_valid {valid : Bool} (hvalid : e.valid g [.default, c] = .ok valid)
    {x : Representation} (h : w.gated g one many e c = .ok x) :
    valid = false ∧ (∃ es, x = .ofErrors es ∧ es ≠ [] ∧ e.Collects g c es) ∨
      valid = true ∧ w.full g one many e = .ok x := by
  obtain ⟨es, hes, hx⟩ := gated_eq_ok h
  have hiff := valid_iff_gateErrors hes hvalid
  rcases hx with ⟨hne, rfl⟩ | ⟨hnil, hfull⟩
  · exact .inl ⟨by simpa using fun h => hne (hiff.1 h), es, rfl, hne, collects_of_gateErrors hes⟩
  · exact .inr ⟨hiff.2 hnil, hfull⟩

variable (w) in
theorem exists_entity (hg : g.Answers) (he : e.Answers g) (c : Context) (embed : Bool) :
    ∃ x, w.entity g e c embed = .ok x := by
  cases embed with
  | false => exact exists_linked w hg he c
  | true =>
    exact exists_gated he (fun x hx => exists_linked w hg (hg x hx) .default)
      (fun x hbase hx => exists_listing w hg he x hbase hx) c

/-- However an entity is shown, with links or embedded, that are errors exactly if the entity is
not valid by default and in the context. Then there are errors, those of the default context and
of the other one; else the full form of the entity is shown. Where the storage answers, whether
the entity is valid can be told, and the entity can be shown. -/
theorem shown_iff_valid (w : Renderer) (g : ResourceGraph (Except Fault) R) (e : Entity R)
    (c : Context) :
    (∀ valid, e.valid g [.default, c] = .ok valid → ∀ embed x, w.entity g e c embed = .ok x →
      ((∃ es, x = .ofErrors es) ↔ valid = false) ∧
      (valid = false → ∃ es, x = .ofErrors es ∧ es ≠ [] ∧ e.Collects g c es) ∧
      (valid = true → ∃ uri, e.uri g w.root w.ext = .ok uri ∧ x.IsFullOf g e uri)) ∧
    (g.Answers → e.Answers g → (∃ valid, e.valid g [.default, c] = .ok valid) ∧
      ∀ embed, ∃ x, w.entity g e c embed = .ok x) := by
  refine ⟨fun valid hvalid embed x hx => ?_,
    fun hg he => ⟨he.exists_valid _, exists_entity w hg he c⟩⟩
  obtain ⟨one, many, hgated⟩ : ∃ one many, w.gated g one many e c = .ok x := by
    cases embed with
    | false => exact ⟨_, _, hx⟩
    | true => exact ⟨_, _, hx⟩
  rcases gated_of_valid hvalid hgated with ⟨rfl, es, rfl, hes⟩ | ⟨rfl, hfull⟩
  · exact ⟨⟨fun _ => rfl, fun _ => ⟨es, rfl⟩⟩, fun _ => ⟨es, rfl, hes⟩, nofun⟩
  · obtain ⟨uri, huri, hform⟩ := isFullOf_of_full hfull
    refine ⟨⟨fun ⟨es, hes⟩ => absurd hes (hform.ne_ofErrors es), nofun⟩, nofun, fun _ => ?_⟩
    exact ⟨uri, huri, hform⟩

/-- The task without a title is not valid, and its errors are shown, embedded as well. -/
theorem shown_iff_valid_twoTasks : ∃ es,
    ({} : Renderer).entity twoTasks ⟨taskType, false, []⟩ .update true = .ok (.ofErrors es) ∧
    es.Tells "title" "signed" ∧ es.IsDistinct := by
  obtain ⟨hshown, htold⟩ := shown_iff_valid {} twoTasks ⟨taskType, false, []⟩ .update
  have he : (⟨taskType, false, []⟩ : Entity Bool).Answers twoTasks :=
    answers_twoTasks _ ⟨List.mem_cons_self, rfl⟩
  obtain ⟨-, htold⟩ := htold answers_twoTasks he
  obtain ⟨x, hx⟩ := htold true
  have hvalid : (⟨taskType, false, []⟩ : Entity Bool).valid twoTasks [.default, .update] =
      .ok false := rfl
  obtain ⟨-, herrors, -⟩ := hshown false hvalid true x hx
  obtain ⟨es, rfl, -, hcollects⟩ := herrors rfl
  refine ⟨es, hx, (hcollects.tells _ _).2 (.inr ?_), hcollects.distinct⟩
  exact .rule (v := .of "signed" [.default, .update]) (by simp [taskType]) rfl rfl rfl
    ⟨_, List.mem_cons_self, List.mem_cons_of_mem _ List.mem_cons_self⟩

end Renderer

end Hypermedia
