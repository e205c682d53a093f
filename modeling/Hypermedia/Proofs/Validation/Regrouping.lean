import Hypermedia.Proofs.Occurrences
import Hypermedia.Proofs.Validation.Merging

/-!
# Errors put together in any grouping

Putting errors together is tidying up one list: all entries of the parts, one after the other,
come down to each field once with each of its messages once, where they occur first
(`Errors.merge_eq_tidy`). One step of the way adds an entry to what is tidy already
(`Errors.addField_tidy`).

What is tidied does not depend on what was tidied before (`Errors.tidy_append_congr`,
`Errors.tidy_tidy`), and entries that are there before add nothing (`Errors.tidy_append_of_subset`).
So parts may be put together in groups first, and putting a part once more behind the outcome
changes nothing (`Errors.merge_regroups_and_absorbs`).
-/

namespace Hypermedia.Errors

variable {field : String} {es es' ds ds' : Errors}

/-! ## What is told about a field -/

/-- The messages for a field, in the order of the entries. -/
def messagesOf (field : String) (es : Errors) : List String :=
  (es.filter fun e => e.1 == field).flatMap Prod.snd

theorem messagesOf_append (field : String) (es ds : Errors) :
    messagesOf field (es ++ ds) = messagesOf field es ++ messagesOf field ds := by
  simp [messagesOf]

theorem messagesOf_concat (field name : String) (messages : List String) (es : Errors) :
    messagesOf field (es ++ [(name, messages)]) =
      messagesOf field es ++ if field = name then messages else [] := by
  rw [messagesOf_append]
  by_cases hfield : field = name
  · simp [messagesOf, hfield]
  · simp [messagesOf, hfield, Ne.symm hfield]

theorem messagesOf_flatten (field : String) (parts : List Errors) :
    messagesOf field parts.flatten = parts.flatMap (messagesOf field) := by
  induction parts with
  | nil => rfl
  | cons p parts ih => rw [List.flatten_cons, messagesOf_append, ih, List.flatMap_cons]

theorem messagesOf_subset (field : String) (h : ds ⊆ es) :
    messagesOf field ds ⊆ messagesOf field es := by
  intro message hmessage
  obtain ⟨e, he, hmessage⟩ := List.mem_flatMap.1 hmessage
  obtain ⟨he, hfield⟩ := List.mem_filter.1 he
  exact List.mem_flatMap.2 ⟨e, List.mem_filter.2 ⟨h he, hfield⟩, hmessage⟩

theorem messagesOf_eq_nil (h : field ∉ es.map Prod.fst) : messagesOf field es = [] := by
  have hnone : es.filter (fun e => e.1 == field) = [] :=
    List.filter_eq_nil_iff.2 fun e he heq => h (beq_iff_eq.1 heq ▸ List.mem_map_of_mem he)
  rw [messagesOf, hnone, List.flatMap_nil]

/-- Where each field has one entry, it has the messages of that entry. -/
theorem messagesOf_of_mem (hn : (es.map Prod.fst).Nodup) {e : String × List String} (he : e ∈ es) :
    messagesOf e.1 es = e.2 := by
  induction es with
  | nil => cases he
  | cons d es ih =>
    obtain ⟨hd, hes⟩ := List.nodup_cons.1 hn
    have hcons : messagesOf e.1 (d :: es) = messagesOf e.1 [d] ++ messagesOf e.1 es :=
      messagesOf_append e.1 [d] es
    rcases List.mem_cons.1 he with rfl | he
    · rw [hcons, messagesOf_eq_nil hd]
      simp [messagesOf]
    · have hne : d.1 ≠ e.1 := fun heq => hd (heq ▸ List.mem_map_of_mem he)
      rw [hcons, ih hes he, messagesOf_eq_nil (by simpa using hne.symm), List.nil_append]

/-! ## Tidy errors -/

/-- Each field once, and each of its messages once, where they occur first. -/
def tidy (es : Errors) : Errors :=
  (es.map Prod.fst).eraseDups.map fun field => (field, (messagesOf field es).eraseDups)

theorem fields_tidy (es : Errors) : (tidy es).map Prod.fst = (es.map Prod.fst).eraseDups := by
  rw [tidy, List.map_map]
  exact List.map_id _

theorem messagesOf_tidy (field : String) (es : Errors) :
    messagesOf field (tidy es) = (messagesOf field es).eraseDups := by
  by_cases hfield : field ∈ es.map Prod.fst
  · have hn : ((tidy es).map Prod.fst).Nodup := fields_tidy es ▸ nodup_eraseDups _
    exact messagesOf_of_mem hn (List.mem_map.2 ⟨field, List.mem_eraseDups.2 hfield, rfl⟩)
  · rw [messagesOf_eq_nil hfield, messagesOf_eq_nil (by rwa [fields_tidy, List.mem_eraseDups])]
    rfl

/-- What is tidied depends on the first occurrences of the fields and of the messages of each. -/
theorem tidy_eq_tidy_iff : tidy es = tidy ds ↔
    (es.map Prod.fst).eraseDups = (ds.map Prod.fst).eraseDups ∧
      ∀ field, (messagesOf field es).eraseDups = (messagesOf field ds).eraseDups := by
  constructor
  · refine fun h => ⟨?_, fun field => ?_⟩
    · rw [← fields_tidy, h, fields_tidy]
    · rw [← messagesOf_tidy, h, messagesOf_tidy]
  · rintro ⟨hfields, hmessages⟩
    simp only [tidy, hfields, hmessages]

theorem tidy_append_congr (hes : tidy es = tidy es') (hds : tidy ds = tidy ds') :
    tidy (es ++ ds) = tidy (es' ++ ds') := by
  obtain ⟨hfields, hmessages⟩ := tidy_eq_tidy_iff.1 hes
  obtain ⟨hfields', hmessages'⟩ := tidy_eq_tidy_iff.1 hds
  refine tidy_eq_tidy_iff.2 ⟨?_, fun field => ?_⟩
  · rw [List.map_append, List.map_append]
    exact eraseDups_append_congr hfields hfields'
  · rw [messagesOf_append, messagesOf_append]
    exact eraseDups_append_congr (hmessages field) (hmessages' field)

theorem tidy_tidy (es : Errors) : tidy (tidy es) = tidy es := by
  refine tidy_eq_tidy_iff.2 ⟨?_, fun field => ?_⟩
  · rw [fields_tidy, eraseDups_of_nodup (nodup_eraseDups _)]
  · rw [messagesOf_tidy, eraseDups_of_nodup (nodup_eraseDups _)]

theorem tidy_append_of_subset (h : ds ⊆ es) : tidy (es ++ ds) = tidy es := by
  refine tidy_eq_tidy_iff.2 ⟨?_, fun field => ?_⟩
  · rw [List.map_append]
    exact eraseDups_append_of_subset (List.map_subset _ h)
  · rw [messagesOf_append]
    exact eraseDups_append_of_subset (messagesOf_subset field h)

/-- If each field has one entry, only the messages of each are tidied up. -/
theorem tidy_of_nodup (h : (es.map Prod.fst).Nodup) :
    tidy es = es.map fun e => (e.1, e.2.eraseDups) := by
  rw [tidy, eraseDups_of_nodup h, List.map_map]
  refine List.map_congr_left fun e he => ?_
  rw [Function.comp_apply, messagesOf_of_mem h he]

/-! ## Putting together is tidying up -/

/-- Messages are added to those that were added before. -/
theorem addMessages_eraseDups (new : List String) : ∀ old : List String,
    addMessages old.eraseDups new = (old ++ new).eraseDups := by
  induction new with
  | nil => exact fun old => by rw [addMessages, List.append_nil]
  | cons x new ih =>
    intro old
    have hstep : (if old.eraseDups.contains x then old.eraseDups else old.eraseDups ++ [x]) =
        (old ++ [x]).eraseDups := by
      rw [eraseDups_concat]
      simp
    rw [addMessages, hstep, ih, List.append_assoc]
    rfl

/-- Adding messages for a field that is there changes the entry of that field alone. -/
theorem addField_map (name : String) (messages : List String) (g : String → List String) :
    ∀ {fields : List String}, fields.Nodup → name ∈ fields →
      addField name messages (fields.map fun f => (f, g f)) =
        fields.map fun f => (f, if f = name then addMessages (g f) messages else g f)
  | [], _, h => nomatch h
  | f :: fields, hn, h => by
    obtain ⟨hf, hn⟩ := List.nodup_cons.1 hn
    rw [List.map_cons, List.map_cons, addField]
    by_cases hname : f = name
    · have hrest : fields.map (fun x => (x, if x = name then addMessages (g x) messages else g x)) =
          fields.map fun x => (x, g x) :=
        List.map_congr_left fun x hx => by
          rw [if_neg fun heq : x = name => hf (hname.trans heq.symm ▸ hx)]
      rw [if_pos (by simpa using hname), if_pos hname, hrest]
    · have hmem : name ∈ fields := (List.mem_cons.1 h).resolve_left fun heq => hname heq.symm
      rw [if_neg (by simpa using hname), if_neg hname, addField_map name messages g hn hmem]

/-- One more entry is added to what is tidy: behind the messages of its field if the field is
there, else at the end. -/
theorem addField_tidy (name : String) (messages : List String) (es : Errors) :
    addField name messages (tidy es) = tidy (es ++ [(name, messages)]) := by
  have hfields : ((es ++ [(name, messages)]).map Prod.fst).eraseDups =
      if name ∈ es.map Prod.fst then (es.map Prod.fst).eraseDups
      else (es.map Prod.fst).eraseDups ++ [name] := by
    rw [List.map_append]
    exact eraseDups_concat _ _
  -- The fields stay as they are and one of them gets more messages, or there is one more field.
  by_cases hname : name ∈ es.map Prod.fst
  · rw [if_pos hname] at hfields
    rw [tidy, addField_map name messages _ (nodup_eraseDups _) (List.mem_eraseDups.2 hname), tidy,
      hfields]
    refine List.map_congr_left fun field _ => ?_
    rw [messagesOf_concat]
    by_cases hfield : field = name
    · rw [if_pos hfield, if_pos hfield, addMessages_eraseDups]
    · rw [if_neg hfield, if_neg hfield, List.append_nil]
  · rw [if_neg hname] at hfields
    have hnew : name ∉ (tidy es).map Prod.fst := by rwa [fields_tidy, List.mem_eraseDups]
    rw [addField_of_notMem hnew, tidy, tidy, hfields, List.map_append]
    congr 1
    · refine List.map_congr_left fun field hfield => ?_
      have hne : field ≠ name := fun heq => hname (heq ▸ List.mem_eraseDups.1 hfield)
      rw [messagesOf_concat, if_neg hne, List.append_nil]
    · have hfirst : addMessages [] messages = messages.eraseDups :=
        addMessages_eraseDups messages []
      rw [List.map_singleton, messagesOf_concat, if_pos rfl, messagesOf_eq_nil hname,
        List.nil_append, hfirst]

theorem append_tidy (new : Errors) : ∀ old : Errors, append (tidy old) new = tidy (old ++ new) := by
  induction new with
  | nil => exact fun old => by rw [List.append_nil]; rfl
  | cons e new ih =>
    intro old
    change append (addField e.1 e.2 (tidy old)) new = _
    rw [addField_tidy, ih, List.append_assoc]
    rfl

/-- Errors are put together by tidying up all their entries. -/
theorem merge_eq_tidy (parts : List Errors) : merge parts = tidy parts.flatten := by
  have hfold : ∀ old : Errors, parts.foldl append (tidy old) = tidy (old ++ parts.flatten) := by
    induction parts with
    | nil => exact fun old => by rw [List.flatten_nil, List.append_nil]; rfl
    | cons p parts ih =>
      intro old
      rw [List.foldl_cons, append_tidy, ih, List.flatten_cons, List.append_assoc]
  exact hfold []

/-! ## Groups and repetitions -/

/-- Some parts in a row may be put together first. -/
theorem merge_part (before group after : List Errors) :
    merge (before ++ merge group :: after) = merge (before ++ group ++ after) := by
  rw [merge_eq_tidy, merge_eq_tidy, merge_eq_tidy, List.flatten_append, List.flatten_append,
    List.flatten_append, List.flatten_cons, List.append_assoc]
  exact tidy_append_congr rfl (tidy_append_congr (tidy_tidy _) rfl)

/-- All parts may be put together in groups first. -/
theorem merge_map_merge (groups : List (List Errors)) :
    merge (groups.map merge) = merge groups.flatten := by
  rw [merge_eq_tidy, merge_eq_tidy]
  induction groups with
  | nil => rfl
  | cons group groups ih =>
    rw [List.map_cons, List.flatten_cons, List.flatten_cons, List.flatten_append, merge_eq_tidy]
    exact tidy_append_congr (tidy_tidy _) ih

theorem merge_pair_of_subset {parts : List Errors} (h : es ⊆ parts.flatten) :
    merge [merge parts, es] = merge parts := by
  have hpart : merge [merge parts, es] = merge (parts ++ [es]) := merge_part [] parts [es]
  rw [hpart, merge_eq_tidy, merge_eq_tidy, List.flatten_append, List.flatten_singleton]
  exact tidy_append_of_subset h

theorem merge_pair_self (parts : List Errors) :
    merge [merge parts, merge parts] = merge parts := by
  have hfirst : merge [merge parts, merge parts] = merge (parts ++ [merge parts]) :=
    merge_part [] parts [merge parts]
  have hsecond : merge (parts ++ [merge parts]) = merge (parts ++ parts ++ []) :=
    merge_part parts parts []
  rw [hfirst, hsecond, List.append_nil, merge_eq_tidy, merge_eq_tidy, List.flatten_append]
  exact tidy_append_of_subset (List.Subset.refl _)

/-- The errors are those of the parts: the fields of the parts in the order of their first
occurrence, and for each field its messages of all parts in the order of their first occurrence.
Nothing is repeated and nothing is lost. -/
structure IsUnion (parts : List Errors) (es : Errors) : Prop where
  fields : es.map Prod.fst = (parts.flatMap fun p => p.map Prod.fst).eraseDups
  messages : ∀ e ∈ es, e.2 = (parts.flatMap (messagesOf e.1)).eraseDups
  distinct : es.IsDistinct
  complete : ∀ field message, es.Tells field message ↔ ∃ p ∈ parts, p.Tells field message

theorem isUnion_merge (parts : List Errors) : IsUnion parts (merge parts) where
  fields := by rw [merge_eq_tidy, fields_tidy, List.map_flatten, List.flatMap_def]
  messages := fun e he => by
    rw [← messagesOf_of_mem (isDistinct_merge parts).fields he, merge_eq_tidy, messagesOf_tidy,
      messagesOf_flatten]
  distinct := isDistinct_merge parts
  complete := fun _ _ => tells_merge

/-- Errors are put together alike in every grouping, and nothing is lost or repeated. Parts in a row
may be put together first, all of them in groups or some of them within the others. No errors on
either side leave of errors all but the repetitions of messages. The outcome stays as it is when it
is put together with itself, or with one of the parts behind it. -/
theorem merge_regroups_and_absorbs (parts : List Errors) :
    IsUnion parts (merge parts) ∧
    (∀ groups : List (List Errors), groups.flatten = parts →
      merge (groups.map merge) = merge parts) ∧
    (∀ before group after : List Errors, before ++ group ++ after = parts →
      merge (before ++ merge group :: after) = merge parts) ∧
    (∀ es : Errors, (es.map Prod.fst).Nodup →
      merge [[], es] = es.map (fun e => (e.1, e.2.eraseDups)) ∧
        merge [es, []] = es.map (fun e => (e.1, e.2.eraseDups))) ∧
    merge [merge parts, merge parts] = merge parts ∧
    ∀ p ∈ parts, merge [merge parts, p] = merge parts := by
  refine ⟨isUnion_merge parts, ?_, ?_, fun es hes => ⟨?_, ?_⟩, merge_pair_self parts,
    fun p hp => merge_pair_of_subset fun _ he => List.mem_flatten.2 ⟨p, hp, he⟩⟩
  · rintro groups rfl
    exact merge_map_merge groups
  · rintro before group after rfl
    exact merge_part before group after
  · rw [merge_eq_tidy, ← tidy_of_nodup hes]
    simp
  · rw [merge_eq_tidy, ← tidy_of_nodup hes]
    simp

/-- What two rules say about a name and a title, and a third one that says nothing. -/
def blankName : List Errors :=
  [[("name", ["blank"])], [("title", ["missing"]), ("name", ["too short", "blank", "too short"])],
    []]

theorem merge_regroups_and_absorbs_blankName :
    merge blankName = [("name", ["blank", "too short"]), ("title", ["missing"])] ∧
    merge [merge (blankName.take 1), merge (blankName.drop 1)] = merge blankName ∧
    merge (blankName.take 1 ++ merge (blankName.drop 1) :: []) = merge blankName ∧
    merge [[], [("name", ["too short", "blank", "too short"])]] =
      [("name", ["too short", "blank"])] ∧
    merge [merge blankName, [("name", ["blank"])]] = merge blankName := by
  obtain ⟨-, hgroups, hpart, hnone, -, habsorbs⟩ := merge_regroups_and_absorbs blankName
  refine ⟨by decide, hgroups [blankName.take 1, blankName.drop 1] rfl,
    hpart (blankName.take 1) (blankName.drop 1) [] rfl, ?_, habsorbs _ List.mem_cons_self⟩
  exact (hnone [("name", ["too short", "blank", "too short"])] (by decide)).1.trans (by decide)

end Hypermedia.Errors
