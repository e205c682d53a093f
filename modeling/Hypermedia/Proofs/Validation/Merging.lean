import Hypermedia.Validation.Errors
import Mathlib.Data.List.Nodup
import Mathlib.Tactic.Tauto

/-!
# Errors put together

Errors that are put together have the fields of their parts and tell what any part of them tells
(`Errors.mem_fields_merge`, `Errors.tells_merge`), each field and each of its messages once
(`Errors.isDistinct_merge`). What is put first stays first: later parts only add fields at the
end, and messages at the end of those of a field (`Errors.isStartOf_merge`).
-/

namespace Hypermedia.Errors

/-! ## Fields -/

section

variable {α : Type} [BEq α]

theorem mem_fields_addField {field name : String} {messages : List α}
    {es : List (String × List α)} : field ∈ (addField name messages es).map Prod.fst ↔
      field = name ∨ field ∈ es.map Prod.fst := by
  induction es with
  | nil => simp [addField]
  | cons e es ih =>
    unfold addField
    split
    · next hname =>
      rw [← eq_of_beq hname]
      simp
    · rw [List.map_cons, List.mem_cons, ih, List.map_cons, List.mem_cons]
      tauto

theorem mem_fields_append {field : String} {new : List (String × List α)} :
    ∀ {old : List (String × List α)}, field ∈ (append old new).map Prod.fst ↔
      field ∈ old.map Prod.fst ∨ field ∈ new.map Prod.fst := by
  induction new with
  | nil => simp [append]
  | cons e new ih =>
    intro old
    change field ∈ (append (addField e.1 e.2 old) new).map Prod.fst ↔ _
    rw [ih, mem_fields_addField, List.map_cons, List.mem_cons]
    tauto

/-- The fields of errors that are put together are those of the parts. -/
theorem mem_fields_merge {field : String} {parts : List (List (String × List α))} :
    field ∈ (merge parts).map Prod.fst ↔ ∃ p ∈ parts, field ∈ p.map Prod.fst := by
  have hfold : ∀ old : List (String × List α), field ∈ (parts.foldl append old).map Prod.fst ↔
      field ∈ old.map Prod.fst ∨ ∃ p ∈ parts, field ∈ p.map Prod.fst := by
    induction parts with
    | nil => simp
    | cons p parts ih =>
      intro old
      rw [List.foldl_cons, ih, mem_fields_append]
      simp [or_assoc]
  simpa [merge] using hfold []

theorem addField_ne_nil (field : String) (messages : List α) (es : List (String × List α)) :
    addField field messages es ≠ [] := by
  cases es with
  | nil => simp [addField]
  | cons e es =>
    unfold addField
    split <;> simp

theorem append_eq_nil {old new : List (String × List α)} :
    append old new = [] ↔ old = [] ∧ new = [] := by
  induction new generalizing old with
  | nil => simp [append]
  | cons e es ih =>
    change append (addField e.1 e.2 old) es = [] ↔ _
    simp [ih, addField_ne_nil]

theorem foldl_append_eq_nil {parts : List (List (String × List α))} {old : List (String × List α)} :
    parts.foldl append old = [] ↔ old = [] ∧ ∀ p ∈ parts, p = [] := by
  induction parts generalizing old with
  | nil => simp
  | cons p ps ih => simp [ih, append_eq_nil, and_assoc]

/-- Errors are none when put together exactly if there are none in any part. -/
theorem merge_eq_nil {parts : List (List (String × List α))} :
    merge parts = [] ↔ ∀ p ∈ parts, p = [] := by
  simp [merge, foldl_append_eq_nil]

end

/-! ## Notes -/

section

variable {α : Type}

theorem note_ne_nil (field : String) (messages : List α) (es : List (String × List α)) :
    note field messages es ≠ [] := by
  cases es with
  | nil => simp [note]
  | cons e es =>
    unfold note
    split <;> simp

theorem mem_fields_note {name field : String} {messages : List α} {es : List (String × List α)} :
    name ∈ (note field messages es).map Prod.fst ↔ name = field ∨ name ∈ es.map Prod.fst := by
  induction es with
  | nil => simp [note]
  | cons e es ih =>
    unfold note
    split
    · next hfield =>
      rw [← eq_of_beq hfield]
      simp
    · rw [List.map_cons, List.mem_cons, ih, List.map_cons, List.mem_cons]
      tauto

theorem mem_fields_foldl_note {name key : String} {found : List (String × List α)} :
    ∀ {es : List (String × List α)},
      name ∈ (found.foldl (fun es f => note key f.2 es) es).map Prod.fst →
        name = key ∨ name ∈ es.map Prod.fst := by
  induction found with
  | nil => exact fun h => .inr h
  | cons f found ih => exact fun h => (ih h).elim .inl mem_fields_note.1

/-- If nothing is noted in the end, there was nothing before and nothing to note. -/
theorem foldl_note_eq_nil {key : String} {found : List (String × List α)} :
    ∀ {es : List (String × List α)}, found.foldl (fun es f => note key f.2 es) es = [] →
      es = [] ∧ found = [] := by
  induction found with
  | nil => exact fun h => ⟨h, rfl⟩
  | cons f found ih => exact fun h => absurd (ih h).1 (note_ne_nil _ _ _)

end

/-! ## Messages -/

/-- The errors have a message for a field. -/
def Tells (es : Errors) (field message : String) : Prop :=
  ∃ messages, (field, messages) ∈ es ∧ message ∈ messages

variable {field message : String}

theorem tells_cons {e : String × List String} {es : Errors} :
    Tells (e :: es) field message ↔ e.1 = field ∧ message ∈ e.2 ∨ es.Tells field message := by
  constructor
  · rintro ⟨messages, hmem, hmessage⟩
    rcases List.mem_cons.1 hmem with rfl | hmem
    · exact Or.inl ⟨rfl, hmessage⟩
    · exact Or.inr ⟨messages, hmem, hmessage⟩
  · rintro (⟨rfl, hmessage⟩ | ⟨messages, hmem, hmessage⟩)
    · exact ⟨e.2, List.mem_cons_self, hmessage⟩
    · exact ⟨messages, List.mem_cons_of_mem _ hmem, hmessage⟩

theorem not_tells_nil : ¬Tells [] field message := by
  rintro ⟨messages, hmem, -⟩
  cases hmem

theorem mem_addMessages {new : List String} : ∀ {old : List String},
    message ∈ addMessages old new ↔ message ∈ old ∨ message ∈ new := by
  induction new with
  | nil => simp [addMessages]
  | cons x new ih =>
    intro old
    rw [addMessages, ih]
    split
    · next hknown =>
      have hx : x ∈ old := by simpa using hknown
      rw [List.mem_cons]
      constructor
      · exact Or.imp id Or.inr
      · rintro (hold | rfl | hnew)
        · exact Or.inl hold
        · exact Or.inl hx
        · exact Or.inr hnew
    · simp [or_assoc]

theorem tells_addField {name : String} {messages : List String} {es : Errors} :
    Tells (addField name messages es) field message ↔
      name = field ∧ message ∈ messages ∨ es.Tells field message := by
  induction es with
  | nil => simp [addField, tells_cons, mem_addMessages]
  | cons e es ih =>
    unfold addField
    split
    · next hname =>
      rw [tells_cons, tells_cons, mem_addMessages, eq_of_beq hname]
      tauto
    · rw [tells_cons, tells_cons, ih]
      tauto

theorem tells_append {new : Errors} : ∀ {old : Errors},
    Tells (append old new) field message ↔ old.Tells field message ∨ new.Tells field message := by
  induction new with
  | nil => simp [append, not_tells_nil]
  | cons e new ih =>
    intro old
    change Tells (append (addField e.1 e.2 old) new) field message ↔ _
    rw [ih, tells_addField, tells_cons]
    tauto

/-- Errors that are put together tell what any part of them tells. -/
theorem tells_merge {parts : List Errors} :
    Tells (merge parts) field message ↔ ∃ es ∈ parts, es.Tells field message := by
  have hfold : ∀ old : Errors, Tells (parts.foldl append old) field message ↔
      old.Tells field message ∨ ∃ es ∈ parts, es.Tells field message := by
    induction parts with
    | nil => simp
    | cons p parts ih =>
      intro old
      rw [List.foldl_cons, ih, tells_append]
      simp [or_assoc]
  exact (hfold []).trans (or_iff_right not_tells_nil)

/-! ## Nothing is repeated -/

/-- No field is repeated, and no message of a field. -/
structure IsDistinct (es : Errors) : Prop where
  fields : (es.map Prod.fst).Nodup
  messages : ∀ e ∈ es, e.2.Nodup

theorem nodup_addMessages {new : List String} : ∀ {old : List String}, old.Nodup →
    (addMessages old new).Nodup := by
  induction new with
  | nil => exact fun h => h
  | cons x new ih =>
    intro old hold
    rw [addMessages]
    refine ih ?_
    split
    · exact hold
    · next hx =>
      rw [← List.concat_eq_append]
      exact List.Nodup.concat (by simpa using hx) hold

theorem isDistinct_addField {es : Errors} (h : es.IsDistinct) (name : String)
    (messages : List String) : IsDistinct (addField name messages es) := by
  induction es with
  | nil =>
    refine ⟨List.nodup_singleton _, fun e he => ?_⟩
    rw [List.mem_singleton.1 he]
    exact nodup_addMessages List.nodup_nil
  | cons e es ih =>
    obtain ⟨hname, hfields⟩ := List.nodup_cons.1 h.fields
    have hrest : IsDistinct es := ⟨hfields, fun d hd => h.messages d (List.mem_cons_of_mem _ hd)⟩
    unfold addField
    split
    · refine ⟨h.fields, fun d hd => ?_⟩
      rcases List.mem_cons.1 hd with rfl | hd
      · exact nodup_addMessages (h.messages e List.mem_cons_self)
      · exact hrest.messages d hd
    · next hne =>
      refine ⟨List.nodup_cons.2 ⟨fun hmem => ?_, (ih hrest).fields⟩, fun d hd => ?_⟩
      · rcases mem_fields_addField.1 hmem with rfl | hmem
        · exact hne (beq_self_eq_true _)
        · exact hname hmem
      · rcases List.mem_cons.1 hd with rfl | hd
        · exact h.messages _ List.mem_cons_self
        · exact (ih hrest).messages d hd

theorem isDistinct_append {new : Errors} : ∀ {old : Errors}, old.IsDistinct →
    IsDistinct (append old new) := by
  induction new with
  | nil => exact fun h => h
  | cons e new ih => exact fun h => ih (isDistinct_addField h e.1 e.2)

/-- Errors that are put together repeat nothing. -/
theorem isDistinct_merge (parts : List Errors) : IsDistinct (merge parts) :=
  List.foldlRecOn (motive := IsDistinct) parts append ⟨List.nodup_nil, by simp⟩
    fun _ hes _ _ => isDistinct_append hes

/-! ## What is put first stays first -/

/-- Other errors begin with these: with their fields in the same order, and for each of them with
its messages in the same order. -/
inductive IsStartOf : Errors → Errors → Prop
  | nil (es : Errors) : IsStartOf [] es
  | cons {name : String} {before after : List String} {first es : Errors} :
      before <+: after → IsStartOf first es →
        IsStartOf ((name, before) :: first) ((name, after) :: es)

theorem IsStartOf.refl (es : Errors) : es.IsStartOf es := by
  induction es with
  | nil => exact .nil _
  | cons e es ih => exact .cons List.prefix_rfl ih

theorem IsStartOf.trans {first mid es : Errors} (h : first.IsStartOf mid) (h' : mid.IsStartOf es) :
    first.IsStartOf es := by
  induction h generalizing es with
  | nil => exact .nil _
  | cons hbefore hfirst ih =>
    cases h' with
    | cons hafter hmid => exact .cons (hbefore.trans hafter) (ih hmid)

theorem prefix_addMessages (new : List String) : ∀ old : List String,
    old <+: addMessages old new := by
  induction new with
  | nil => exact fun old => List.prefix_rfl
  | cons x new ih =>
    intro old
    rw [addMessages]
    split
    · exact ih old
    · exact (List.prefix_append old [x]).trans (ih _)

theorem isStartOf_addField (name : String) (messages : List String) (es : Errors) :
    es.IsStartOf (addField name messages es) := by
  induction es with
  | nil => exact .nil _
  | cons e es ih =>
    unfold addField
    split
    · exact .cons (prefix_addMessages messages e.2) (.refl es)
    · exact .cons List.prefix_rfl ih

theorem isStartOf_append (new : Errors) : ∀ old : Errors, old.IsStartOf (append old new) := by
  induction new with
  | nil => exact fun old => .refl old
  | cons e new ih => exact fun old => (isStartOf_addField e.1 e.2 old).trans (ih _)

theorem addMessages_of_nodup {new : List String} : ∀ {old : List String}, (old ++ new).Nodup →
    addMessages old new = old ++ new := by
  induction new with
  | nil => simp [addMessages]
  | cons x new ih =>
    intro old h
    have hx : x ∉ old := fun hmem => (List.nodup_append.1 h).2.2 x hmem x List.mem_cons_self rfl
    rw [addMessages, if_neg (by simpa using hx), ih (by simpa using h), List.append_assoc]
    rfl

theorem addField_of_notMem {name : String} {messages : List String} {es : Errors}
    (h : name ∉ es.map Prod.fst) :
    addField name messages es = es ++ [(name, addMessages [] messages)] := by
  induction es with
  | nil => rfl
  | cons e es ih =>
    rw [List.map_cons, List.mem_cons, not_or] at h
    rw [addField, if_neg (by simpa using Ne.symm h.1), ih h.2]
    rfl

/-- Errors that repeat nothing, neither of their own nor of those before, are added as they are. -/
theorem append_of_isDistinct {new : Errors} : ∀ {old : Errors}, IsDistinct (old ++ new) →
    append old new = old ++ new := by
  induction new with
  | nil => simp [append]
  | cons e new ih =>
    intro old h
    have hname : e.1 ∉ old.map Prod.fst := fun hmem => by
      have hnodup := h.fields
      rw [List.map_append, List.map_cons] at hnodup
      exact (List.nodup_append.1 hnodup).2.2 _ hmem _ List.mem_cons_self rfl
    have hmessages : addMessages [] e.2 = [] ++ e.2 :=
      addMessages_of_nodup (h.messages e (by simp))
    have hstep : addField e.1 e.2 old = old ++ [e] := by
      rw [addField_of_notMem hname, hmessages, List.nil_append]
    change append (addField e.1 e.2 old) new = _
    rw [hstep, ih (by simpa using h), List.append_assoc]
    rfl

/-- Errors that repeat nothing stay the first when others are put behind them. -/
theorem isStartOf_merge {es : Errors} (h : es.IsDistinct) (more : Errors) :
    es.IsStartOf (merge [es, more]) := by
  have hes : append [] es = [] ++ es := append_of_isDistinct h
  change es.IsStartOf (append (append [] es) more)
  rw [hes]
  exact isStartOf_append more es

end Hypermedia.Errors
