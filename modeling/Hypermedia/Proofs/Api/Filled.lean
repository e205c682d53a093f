import Hypermedia.Proofs.Api.Locating
import Hypermedia.Proofs.Graph.Links

/-!
# Filled patterns

The patterns of routes have names and ids in turn, each after a slash (`Pattern.Alternates`), if
names read like ids: they are not empty and have no slash and no dot. Filled with ids, and with a
format after a dot, such a pattern gives an address from which names, ids and format can be read
off again (`Pattern.Alternates.eq_of_fill_append`), and a place reads just these addresses
(`Place.match?_eq_some`).
-/

namespace Hypermedia

/-! ## Patterns of names and ids -/

instance (s : List Char) : Decidable (IsId s) :=
  decidable_of_iff (s ≠ [] ∧ s.all Pattern.isIdChar = true)
    ⟨fun h => ⟨h.1, List.all_eq_true.1 h.2⟩, fun h => ⟨h.ne_nil, List.all_eq_true.2 h.isIdChar⟩⟩

theorem IsId.append_inj {a b u v : List Char} (ha : IsId a) (hb : IsId b) (hu : StopsId u)
    (hv : StopsId v) (h : a ++ u = b ++ v) : a = b ∧ u = v := by
  obtain rfl : a = b := by
    rw [← takeWhile_isIdChar ha hu, h, takeWhile_isIdChar hb hv]
  exact ⟨rfl, List.append_cancel_left h⟩

/-- No further piece of a pattern: nothing, or what begins with a dot. -/
def IsEnding (s : List Char) : Prop := ∀ c ∈ s.head?, c = '.'

namespace IsEnding

variable {s : List Char} (h : IsEnding s)

include h

theorem stopsId : StopsId s := fun c hc => by
  rw [h c hc]
  rfl

theorem ne_slash (t : List Char) : s ≠ '/' :: t := by
  rintro rfl
  exact absurd (h '/' rfl) (by decide)

end IsEnding

/-- A piece without the name of its parameter. -/
def PatternPiece.unnamed : PatternPiece → PatternPiece
  | .text t => .text t
  | .id _ => .id ""

namespace Pattern

/-- A pattern of names and ids in turn, each after a slash; does it begin with a name? -/
inductive Alternates : Bool → Pattern → Prop
  | nil (b : Bool) : Alternates b []
  | name {name : String} {r : Pattern} (hname : IsId name.toList) (hr : Alternates false r) :
      Alternates true (.text s!"/{name}" :: r)
  | id {p : String} {r : Pattern} (hr : Alternates true r) : Alternates false (.id p :: r)

/-- A pattern without the names of its parameters. -/
def shape (pattern : Pattern) : Pattern := pattern.map PatternPiece.unnamed

/-- The texts are ids for the parameters of a pattern. -/
structure IsFilledBy (pattern : Pattern) (ids : List String) : Prop where
  length : ids.length = pattern.params.length
  isId : ∀ id ∈ ids, IsId id.toList

variable {b : Bool} {p q : Pattern} {ids ids' : List String} {u v : List Char}

theorem toList_name (name : String) : (s!"/{name}" : String).toList = '/' :: name.toList := by
  rw [String.toList_append]
  rfl

theorem isFilledBy_nil : IsFilledBy [] ids ↔ ids = [] :=
  ⟨fun h => List.eq_nil_of_length_eq_zero h.length, by rintro rfl; exact ⟨rfl, by simp⟩⟩

theorem isFilledBy_text {t : String} : IsFilledBy (.text t :: p) ids ↔ p.IsFilledBy ids :=
  ⟨fun h => ⟨h.length, h.isId⟩, fun h => ⟨h.length, h.isId⟩⟩

theorem isFilledBy_id {x : String} : IsFilledBy (.id x :: p) ids ↔
    ∃ id rest, ids = id :: rest ∧ IsId id.toList ∧ p.IsFilledBy rest := by
  constructor
  · intro h
    cases ids with
    | nil => cases h.length
    | cons id rest =>
      exact ⟨id, rest, rfl, h.isId id List.mem_cons_self, Nat.succ.inj h.length,
        fun i hi => h.isId i (List.mem_cons_of_mem _ hi)⟩
  · rintro ⟨id, rest, rfl, hid, h⟩
    exact ⟨congrArg Nat.succ h.length, List.forall_mem_cons.2 ⟨hid, h.isId⟩⟩

theorem toList_fill_name (name : String) :
    (fill (.text s!"/{name}" :: p) ids).toList = '/' :: (name.toList ++ (fill p ids).toList) := by
  rw [fill, String.toList_append, toList_name, List.cons_append]

theorem toList_fill_id (x id : String) : (fill (.id x :: p) (id :: ids)).toList =
    '/' :: (id.toList ++ (fill p ids).toList) := by
  rw [fill, String.toList_append, String.toList_append]
  rfl

theorem bindIds_id (x id : String) :
    bindIds (.id x :: p) (id :: ids) = (x, .text id) :: bindIds p ids := rfl

namespace Alternates

/-- A filled pattern begins with a slash. -/
theorem head?_fill (hp : Alternates b p) (hids : p.IsFilledBy ids) :
    p = [] ∨ ∃ s, (p.fill ids).toList = '/' :: s := by
  cases hp with
  | nil => exact .inl rfl
  | name => exact .inr ⟨_, toList_fill_name _⟩
  | id =>
    obtain ⟨id, rest, rfl, -⟩ := isFilledBy_id.1 hids
    exact .inr ⟨_, toList_fill_id _ id⟩

/-- What stops an id stops it also after a filled pattern. -/
theorem stopsId (hp : Alternates b p) (hids : p.IsFilledBy ids) (hu : StopsId u) :
    StopsId ((p.fill ids).toList ++ u) := by
  rcases hp.head?_fill hids with rfl | ⟨s, hs⟩
  · simpa [fill] using hu
  · rw [hs]
    rintro c ⟨⟩
    rfl

/-- Filled patterns with endings are alike only if names, ids and endings are: each name and each
id ends at the next slash or at the ending. -/
theorem eq_of_fill_append (hp : Alternates b p) (hq : Alternates b q)
    (hids : p.IsFilledBy ids) (hids' : q.IsFilledBy ids') (hu : IsEnding u) (hv : IsEnding v)
    (h : (p.fill ids).toList ++ u = (q.fill ids').toList ++ v) :
    p.shape = q.shape ∧ ids = ids' ∧ u = v := by
  induction hp generalizing q ids ids' with
  | nil b =>
    obtain rfl := isFilledBy_nil.1 hids
    rcases hq.head?_fill hids' with rfl | ⟨s, hs⟩
    · obtain rfl := isFilledBy_nil.1 hids'
      exact ⟨rfl, rfl, by simpa [fill] using h⟩
    · rw [hs] at h
      exact absurd (by simpa [fill] using h) (hu.ne_slash (s ++ v))
  | @name name r hname hr ih =>
    rw [toList_fill_name] at h
    cases hq with
    | nil => exact absurd (by simpa [fill] using h.symm) (hv.ne_slash _)
    | @name name' r' hname' hr' =>
      rw [isFilledBy_text] at hids hids'
      rw [toList_fill_name, List.cons_append, List.cons_append, List.append_assoc,
        List.append_assoc] at h
      obtain ⟨heq, hrest⟩ := hname.append_inj hname' (hr.stopsId hids hu.stopsId)
        (hr'.stopsId hids' hv.stopsId) (List.cons.inj h).2
      obtain ⟨hshape, hids, huv⟩ := ih hr' hids hids' hrest
      obtain rfl := String.toList_inj.1 heq
      exact ⟨congrArg (_ :: ·) hshape, hids, huv⟩
  | @id x r hr ih =>
    obtain ⟨id, rest, rfl, hid, hrest⟩ := isFilledBy_id.1 hids
    rw [toList_fill_id] at h
    cases hq with
    | nil => exact absurd (by simpa [fill] using h.symm) (hv.ne_slash _)
    | @id x' r' hr' =>
      obtain ⟨id', rest', rfl, hid', hrest'⟩ := isFilledBy_id.1 hids'
      rw [toList_fill_id, List.cons_append, List.cons_append, List.append_assoc,
        List.append_assoc] at h
      obtain ⟨heq, heq'⟩ := hid.append_inj hid' (hr.stopsId hrest hu.stopsId)
        (hr'.stopsId hrest' hv.stopsId) (List.cons.inj h).2
      obtain ⟨hshape, rfl, huv⟩ := ih hr' hrest hrest' heq'
      obtain rfl := String.toList_inj.1 heq
      exact ⟨congrArg (_ :: ·) hshape, rfl, huv⟩

/-- A filled pattern does not end with a slash. -/
theorem getLast?_fill (hp : Alternates b p) (hids : p.IsFilledBy ids) :
    (p.fill ids).toList.getLast? ≠ some '/' := by
  have hcons : ∀ {a s : List Char}, IsId a → s.getLast? ≠ some '/' →
      ('/' :: (a ++ s)).getLast? ≠ some '/' := by
    intro a s ha hs
    rw [← List.singleton_append, List.getLast?_append, List.getLast?_append]
    cases hlast : s.getLast? with
    | some c => rwa [hlast] at hs
    | none =>
      obtain ⟨c, hc⟩ := List.getLast?_isSome.2 ha.ne_nil |> Option.isSome_iff_exists.1
      rw [hc]
      rintro ⟨⟩
      exact absurd (ha.isIdChar _ (List.mem_of_getLast? hc)) (by decide)
  induction hp generalizing ids with
  | nil => simp [fill]
  | name hname hr ih =>
    rw [toList_fill_name]
    exact hcons hname (ih (isFilledBy_text.1 hids))
  | id hr ih =>
    obtain ⟨id, rest, rfl, hid, hrest⟩ := isFilledBy_id.1 hids
    rw [toList_fill_id]
    exact hcons hid (ih hrest)

/-- A filled pattern is read up to what stops an id. -/
theorem read?_fill (hp : Alternates b p) (hids : p.IsFilledBy ids) (hu : StopsId u) :
    read? p ((p.fill ids).toList ++ u) = some (p.bindIds ids, u) := by
  induction hp generalizing ids with
  | nil =>
    obtain rfl := isFilledBy_nil.1 hids
    simp [fill, read?, bindIds, params]
  | @name name r hname hr ih =>
    have hrest := ih (isFilledBy_text.1 hids)
    rw [fill, String.toList_append, List.append_assoc, read?, if_pos (by simp), List.drop_left,
      hrest]
    rfl
  | @id x r hr ih =>
    obtain ⟨id, rest, rfl, hid, hrest⟩ := isFilledBy_id.1 hids
    rw [toList_fill_id, List.cons_append, List.append_assoc,
      read?_id hid x r (hr.stopsId hrest hu), ih hrest, String.ofList_toList, bindIds_id]
    rfl

end Alternates

/-- What a pattern reads is the pattern filled with ids. -/
theorem exists_of_read? {s : List Char} {x : Scope.Params × List Char} (h : read? p s = some x) :
    ∃ ids, p.IsFilledBy ids ∧ s = (p.fill ids).toList ++ x.2 ∧ x.1 = p.bindIds ids := by
  induction p generalizing s x with
  | nil =>
    obtain rfl := Option.some.inj h
    exact ⟨[], isFilledBy_nil.2 rfl, by simp [fill], rfl⟩
  | cons piece p ih =>
    cases piece with
    | text t =>
      rw [read?] at h
      split at h
      · next ht =>
        obtain ⟨s, rfl⟩ := List.isPrefixOf_iff_prefix.1 ht
        rw [List.drop_left] at h
        obtain ⟨ids, hids, rfl, hx⟩ := ih h
        refine ⟨ids, isFilledBy_text.2 hids, ?_, hx⟩
        rw [fill, String.toList_append, List.append_assoc]
      · cases h
    | id q =>
      obtain ⟨s, rfl⟩ : ∃ r, s = '/' :: r := by
        cases s with
        | nil => simp [read?] at h
        | cons c s =>
          by_cases hc : c = '/'
          · exact ⟨s, by rw [hc]⟩
          · simp [read?, hc] at h
      rw [read?] at h
      split at h
      · cases h
      · next hempty =>
        obtain ⟨y, hy, rfl⟩ := Option.map_eq_some_iff.1 h
        obtain ⟨ids, hids, hs, hx⟩ := ih hy
        have hid : IsId (s.takeWhile isIdChar) :=
          ⟨by simpa using hempty, fun c hc => List.all_eq_true.1 List.all_takeWhile c hc⟩
        refine ⟨String.ofList (s.takeWhile isIdChar) :: ids,
          isFilledBy_id.2 ⟨_, ids, rfl, by rwa [String.toList_ofList], hids⟩, ?_, ?_⟩
        · rw [toList_fill_id, String.toList_ofList, List.cons_append, List.append_assoc, ← hs,
            List.takeWhile_append_dropWhile]
        · rw [bindIds_id, ← hx]

/-- A pattern without parameters is spelled as it is filled. -/
theorem spelling_eq_fill (h : p.isFixed = true) : p.spelling = p.fill [] := by
  induction p with
  | nil => rfl
  | cons piece p ih =>
    cases piece with
    | text t =>
      rw [fill, ← ih h]
      simp [spelling, String.join_cons, PatternPiece.spelling]
    | id q => cases h

end Pattern

/-! ## Reading by one place -/

theorem isEnding_formatSuffix {format : Option String} (h : ∀ f ∈ format, IsExt f) :
    IsEnding (Naming.formatSuffix format).toList := head?_formatSuffix h

theorem formatSuffix_none : (Naming.formatSuffix none).toList = [] := by
  simp [Naming.formatSuffix]

/-- The suffix names the format. -/
theorem formatSuffix_inj {format format' : Option String} (h : ∀ f ∈ format, IsExt f)
    (h' : ∀ f ∈ format', IsExt f)
    (heq : (Naming.formatSuffix format).toList = (Naming.formatSuffix format').toList) :
    format = format' := by
  cases format with
  | none =>
    cases format' with
    | none => rfl
    | some f' => rw [formatSuffix_none, (h' f' rfl).formatSuffix_eq] at heq; cases heq
  | some f =>
    cases format' with
    | none => rw [formatSuffix_none, (h f rfl).formatSuffix_eq] at heq; cases heq
    | some f' =>
      rw [(h f rfl).formatSuffix_eq, (h' f' rfl).formatSuffix_eq] at heq
      rw [String.toList_inj.1 (List.cons.inj heq).2]

/-- Neither the address without a format nor the one with a format ends with a slash. -/
theorem Pattern.Alternates.getLast?_fill_append {pattern : Pattern} {ids : List String} {b : Bool}
    (hp : pattern.Alternates b) (hids : pattern.IsFilledBy ids) {format : Option String}
    (hformat : ∀ f ∈ format, IsExt f) :
    ((pattern.fill ids).toList ++ (Naming.formatSuffix format).toList).getLast? ≠ some '/' := by
  cases format with
  | none =>
    rw [formatSuffix_none, List.append_nil]
    exact hp.getLast?_fill hids
  | some f =>
    rw [(hformat f rfl).formatSuffix_eq, List.getLast?_append_cons]
    intro hlast
    exact (hformat f rfl).slash (by simpa using List.mem_of_getLast? hlast)

namespace Place

variable {α : Type} {place : Place α} {address : List Char} {x : Match}

theorem suffix?_eq_some {s : List Char} {format : String} :
    suffix? s = some format ↔ IsExt format ∧ s = '.' :: format.toList := by
  constructor
  · intro h
    unfold suffix? at h
    split at h
    · next r =>
      split at h
      · cases h
      · next hr =>
        obtain rfl := Option.some.inj h
        simp only [Bool.or_eq_true, List.isEmpty_iff, List.contains_iff_mem, not_or] at hr
        refine ⟨⟨fun hempty => hr.1 ?_, by rw [String.toList_ofList]; exact hr.2⟩, by simp⟩
        simpa using congrArg String.toList hempty
    · cases h
  · rintro ⟨hformat, rfl⟩
    simp [suffix?, hformat.ne_empty, hformat.slash]

/-- An address that does not end with a slash is read by a place exactly if it is the pattern
filled with ids, with the suffix of a format if the place has one. -/
theorem match?_eq_some (hp : place.pattern.Alternates true) (hlast : address.getLast? ≠ some '/') :
    place.match? address = some x ↔ ∃ ids format, place.pattern.IsFilledBy ids ∧
      (∀ f ∈ format, IsExt f) ∧ format.isSome = place.hasSuffix ∧
      address = (place.pattern.fill ids).toList ++ (Naming.formatSuffix format).toList ∧
      x = { params := place.pattern.bindIds ids, suffix := format } := by
  constructor
  · intro h
    unfold match? at h
    split at h
    · next hsuffix =>
      simp only [Option.bind_eq_bind, Option.bind_eq_some_iff] at h
      obtain ⟨y, hy, f, hf, h⟩ := h
      obtain rfl := Option.some.inj h
      obtain ⟨ids, hids, haddress, hparams⟩ := Pattern.exists_of_read? hy
      obtain ⟨hext, hrest⟩ := suffix?_eq_some.1 hf
      refine ⟨ids, some f, hids, fun e he => Option.some.inj he ▸ hext, hsuffix.symm, ?_, ?_⟩
      · rw [haddress, hrest, hext.formatSuffix_eq]
      · rw [hparams]
    · next hsuffix =>
      have hplain : false = place.hasSuffix := by simpa using hsuffix
      split at h
      · next params hread =>
        obtain rfl := Option.some.inj h
        obtain ⟨ids, hids, haddress, hparams⟩ := Pattern.exists_of_read? hread
        refine ⟨ids, none, hids, by simp, hplain, ?_, ?_⟩
        · rw [haddress, formatSuffix_none]
        · rw [← hparams]
      · next params hread =>
        obtain ⟨ids, -, haddress, -⟩ := Pattern.exists_of_read? hread
        exact absurd (by simp [haddress]) hlast
      · split at h
        · next hloose =>
          simp only [Bool.and_eq_true, beq_iff_eq] at hloose
          have hids : place.pattern.IsFilledBy [] :=
            ⟨(List.isEmpty_iff_length_eq_zero.1 hloose.1).symm, by simp⟩
          refine absurd ?_ (hp.getLast?_fill hids)
          rw [← Pattern.spelling_eq_fill hloose.1, hloose.2]
          simp
        · cases h
  · rintro ⟨ids, format, hids, hformat, hsuffix, rfl, rfl⟩
    have hread := hp.read?_fill hids (isEnding_formatSuffix hformat).stopsId
    cases format with
    | none =>
      rw [formatSuffix_none, List.append_nil] at hread ⊢
      have hplain : place.hasSuffix = false := hsuffix.symm
      simp [match?, hread, hplain]
    | some f =>
      have hext := hformat f rfl
      have hmarked : place.hasSuffix = true := hsuffix.symm
      have hf := suffix?_eq_some.2 ⟨hext, rfl⟩
      rw [hext.formatSuffix_eq] at hread ⊢
      simp [match?, hread, hmarked, hf]

end Place

end Hypermedia
