import Hypermedia.Proofs.Session.Reading

/-!
# What is known of a list

The records of a list are those that refer to its owner in a column. Before anything is written the
column has one value in the database and is to have another: `C` says what the rows have there and
`G` what they are to have, `k` is the number of the owner. A session knows of the list which records
it has besides those of the database and which of these it has no longer (`LinkState.joined`,
`LinkState.left`), also if the list was not read. `Session.Counts` says that this agrees with the
column, and stays true when a record is put into the list or taken out of it together with its cell,
and when the list is read.

That a record which left its list is remembered there is said apart (`Session.Misses`): it does not
hold of the list of an owner that the session did not know when the record was given to another.
-/

namespace Hypermedia

namespace LinkState

variable {st : LinkState} {x y : Ref}

/-- The records that were added to a list since the last writing. -/
def joined : LinkState → List Ref
  | .unread added _ => added
  | .read before now => (LinkState.read before now).gained

/-- The records that were taken out of a list since the last writing. -/
def left : LinkState → List Ref
  | .unread _ removed => removed
  | .read before now => (LinkState.read before now).dropped

/-- No record is known twice in a list. -/
def Distinct : LinkState → Prop
  | .unread added removed => added.Nodup ∧ removed.Nodup
  | .read _ now => now.Nodup

/-- A list with a further record. -/
def having (x : Ref) : LinkState → LinkState
  | .read before now => .read before (now ++ [x])
  | .unread added removed =>
    if removed.contains x then .unread added (removed.erase x) else .unread (added ++ [x]) removed

/-- A list without a record. -/
def without (x : Ref) : LinkState → LinkState
  | .read before now => .read before (now.erase x)
  | .unread added removed =>
    if added.contains x then .unread (added.erase x) removed
    else .unread added (if removed.contains x then removed else removed ++ [x])

@[simp] theorem joined_unread (added removed : List Ref) :
    (LinkState.unread added removed).joined = added := rfl

@[simp] theorem left_unread (added removed : List Ref) :
    (LinkState.unread added removed).left = removed := rfl

theorem mem_joined_read {before : Option (List Ref)} {now : List Ref} :
    x ∈ (LinkState.read before now).joined ↔ x ∈ now ∧ x ∉ before.getD [] := by
  simp [joined, gained, current, earlier]

theorem mem_left_read {before : Option (List Ref)} {now : List Ref} :
    x ∈ (LinkState.read before now).left ↔ x ∈ before.getD [] ∧ x ∉ now := by
  simp [left, dropped, current, earlier]

/-- A record that is taken out of a list is no longer added to it. -/
theorem mem_joined_without (h : st.Distinct) :
    y ∈ (st.without x).joined ↔ y ≠ x ∧ y ∈ st.joined := by
  cases st with
  | read before now =>
    rw [without, mem_joined_read, mem_joined_read, List.Nodup.mem_erase_iff h, and_assoc]
  | unread added removed =>
    rw [without]
    split
    · exact List.Nodup.mem_erase_iff h.1
    · next hx =>
      refine ⟨fun hy => ⟨?_, hy⟩, And.right⟩
      rintro rfl
      exact hx (by simpa using hy)

theorem mem_left_without (h : st.Distinct) (hy : y ∈ (st.without x).left) :
    y ∈ st.left ∨ y = x ∧ x ∉ st.joined := by
  cases st with
  | read before now =>
    rw [without, mem_left_read, List.Nodup.mem_erase_iff h] at hy
    rw [mem_left_read, mem_joined_read]
    by_cases hyx : y = x
    · exact Or.inr ⟨hyx, fun hx => hx.2 (hyx ▸ hy.1)⟩
    · exact Or.inl ⟨hy.1, fun hnow => hy.2 ⟨hyx, hnow⟩⟩
  | unread added removed =>
    rw [without] at hy
    split at hy
    · exact Or.inl hy
    · next hx =>
      change y ∈ (if removed.contains x then removed else removed ++ [x]) at hy
      split at hy
      · exact Or.inl hy
      · rcases List.mem_append.1 hy with hy | hy
        · exact Or.inl hy
        · exact Or.inr ⟨List.mem_singleton.1 hy, by simpa using hx⟩

theorem mem_left_without_of_mem (h : st.Distinct) (hy : y ∈ st.left) :
    y ∈ (st.without x).left := by
  cases st with
  | read before now =>
    rw [without, mem_left_read, List.Nodup.mem_erase_iff h]
    rw [mem_left_read] at hy
    exact ⟨hy.1, fun hnow => hy.2 hnow.2⟩
  | unread added removed =>
    rw [without]
    split
    · exact hy
    · change y ∈ (if removed.contains x then removed else removed ++ [x])
      split
      · exact hy
      · exact List.mem_append_left _ hy

/-- A record that is taken out of a list is remembered, if the list had it before. -/
theorem mem_left_without_self (h : st.Distinct) (hx : x ∉ st.joined)
    (hbefore : ∀ before now, st = .read before now → x ∈ before.getD []) :
    x ∈ (st.without x).left := by
  cases st with
  | read before now =>
    rw [without, mem_left_read, List.Nodup.mem_erase_iff h]
    exact ⟨hbefore before now rfl, fun hnow => hnow.1 rfl⟩
  | unread added removed =>
    rw [without, if_neg (by simpa using hx)]
    change x ∈ (if removed.contains x then removed else removed ++ [x])
    split
    · next hmem => simpa using hmem
    · simp

theorem Distinct.without (h : st.Distinct) (x : Ref) : (st.without x).Distinct := by
  cases st with
  | read before now => exact List.Nodup.erase x h
  | unread added removed =>
    rw [LinkState.without]
    split
    · exact ⟨h.1.erase x, h.2⟩
    · refine ⟨h.1, ?_⟩
      split
      · exact h.2
      · next hx =>
        exact List.nodup_append.2 ⟨h.2, List.nodup_singleton x, fun a ha b hb =>
          fun heq => hx (by simpa [← List.mem_singleton.1 hb, ← heq] using ha)⟩

end LinkState

namespace Session

/-- Whoever is known by a number in one session is known by it in another. -/
def NumbersFrom (s t : Session) : Prop := ∀ x root k, s.Holds x root k → t.Holds x root k

theorem SeenFrom.numbers {s t : Session} (h : s.SeenFrom t) : s.NumbersFrom t :=
  fun _ _ _ hx => hx.mono h

/-- The records are all those whose cells have a number. -/
structure Lists (s : Session) (root : String) (k : Int) (C : Int → Value) (xs : List Ref) :
    Prop where
  sound : ∀ x ∈ xs, ∃ j, s.Holds x root j ∧ C j = .int k
  complete : ∀ j, C j = .int k → ∃ x ∈ xs, s.Holds x root j

/-- What is known of a list agrees with what a column has and is to have. -/
structure Counts (s : Session) (root : String) (k : Int) (C G : Int → Value) (st : LinkState) :
    Prop where
  before : ∀ before now, st = .read before now → ∃ xs, before = some xs ∧ s.Lists root k C xs
  joined : ∀ x ∈ st.joined, ∃ j, s.Holds x root j ∧ C j ≠ .int k ∧ G j = .int k
  left : ∀ x ∈ st.left, ∃ j, s.Holds x root j ∧ C j = .int k ∧ G j ≠ .int k
  gained : ∀ j, C j ≠ .int k → G j = .int k → ∃ x ∈ st.joined, s.Holds x root j

/-- Every record that is to leave the list is remembered there. -/
def Misses (s : Session) (root : String) (k : Int) (C G : Int → Value) (st : LinkState) : Prop :=
  ∀ j, C j = .int k → G j ≠ .int k → ∃ x ∈ st.left, s.Holds x root j

variable {s t : Session} {root : String} {k : Int} {C G G' : Int → Value} {st : LinkState}

theorem Lists.mono {xs : List Ref} (h : s.Lists root k C xs) (hst : s.NumbersFrom t) :
    t.Lists root k C xs where
  sound := fun x hx => (h.sound x hx).imp fun _ hj => ⟨hst _ _ _ hj.1, hj.2⟩
  complete := fun j hj => (h.complete j hj).imp fun _ hx => ⟨hx.1, hst _ _ _ hx.2⟩

theorem Counts.mono (h : s.Counts root k C G st) (hst : s.NumbersFrom t) :
    t.Counts root k C G st where
  before := fun b now heq => (h.before b now heq).imp fun _ hb => ⟨hb.1, hb.2.mono hst⟩
  joined := fun x hx => (h.joined x hx).imp fun _ hj => ⟨hst _ _ _ hj.1, hj.2⟩
  left := fun x hx => (h.left x hx).imp fun _ hj => ⟨hst _ _ _ hj.1, hj.2⟩
  gained := fun j hC hG => (h.gained j hC hG).imp fun _ hx => ⟨hx.1, hst _ _ _ hx.2⟩

theorem Misses.mono (h : s.Misses root k C G st) (hst : s.NumbersFrom t) :
    t.Misses root k C G st :=
  fun j hC hG => (h j hC hG).imp fun _ hx => ⟨hx.1, hst _ _ _ hx.2⟩

/-- Only the records of the number count. -/
theorem Counts.congr (h : s.Counts root k C G st) (hG : ∀ j, G' j = .int k ↔ G j = .int k) :
    s.Counts root k C G' st where
  before := h.before
  joined := fun x hx => (h.joined x hx).imp fun j hj => ⟨hj.1, hj.2.1, (hG j).2 hj.2.2⟩
  left := fun x hx => (h.left x hx).imp fun j hj => ⟨hj.1, hj.2.1, fun h' => hj.2.2 ((hG j).1 h')⟩
  gained := fun j hC hj => h.gained j hC ((hG j).1 hj)

theorem Misses.congr (h : s.Misses root k C G st) (hG : ∀ j, G' j = .int k ↔ G j = .int k) :
    s.Misses root k C G' st :=
  fun j hC hj => h j hC fun h' => hj ((hG j).2 h')

/-- Of a list that was not touched nothing is to change. -/
theorem counts_unread (h : ∀ j, G j = .int k → C j = .int k) :
    s.Counts root k C G (.unread [] []) where
  before := fun _ _ heq => nomatch heq
  joined := fun _ hx => nomatch hx
  left := fun _ hx => nomatch hx
  gained := fun j hC hj => absurd (h j hj) hC

theorem counts_read {xs : List Ref} (hxs : s.Lists root k C xs)
    (h : ∀ j, G j = .int k ↔ C j = .int k) : s.Counts root k C G (.read (some xs) xs) where
  before := by
    rintro _ _ ⟨⟩
    exact ⟨xs, rfl, hxs⟩
  joined := fun x hx => by
    rw [LinkState.mem_joined_read] at hx
    exact absurd hx.1 hx.2
  left := fun x hx => by
    rw [LinkState.mem_left_read] at hx
    exact absurd hx.1 hx.2
  gained := fun j hC hj => absurd ((h j).1 hj) hC

end Session

namespace Catalog

open Session

variable {c : Catalog} {D : Database} {s : Session} (hs : c.Drafts D s) {root : String} {k : Int}
  {C G G' : Int → Value} {st : LinkState} {x : Ref} {j : Int}

include hs

theorem Drafts.number_eq {root : String} {i j : Int} (h : s.Holds x root i)
    (h' : s.Holds x root j) : i = j := (hs.number_unique h h').2

/-! ## Taking a record out of a list -/

section

variable (hx : s.Holds x root j) (hj : G j = .int k) (hj' : G' j ≠ .int k)
  (hsame : ∀ i, i ≠ j → G' i = G i)

include hx hj hj' hsame

theorem Drafts.counts_without (h : s.Counts root k C G st) (hd : st.Distinct) :
    s.Counts root k C G' (st.without x) where
  before := by
    intro b now heq
    cases st with
    | read b' now' =>
      cases heq
      exact h.before b now' rfl
    | unread added removed =>
      rw [LinkState.without] at heq
      split at heq <;> cases heq
  joined := by
    intro y hy
    obtain ⟨hne, hy⟩ := (LinkState.mem_joined_without hd).1 hy
    obtain ⟨i, hi, hC, hG⟩ := h.joined y hy
    have hij : i ≠ j := fun heq => hne (hs.eq_of_holds hi (heq ▸ hx))
    exact ⟨i, hi, hC, (hsame i hij).trans hG⟩
  left := by
    intro y hy
    rcases LinkState.mem_left_without hd hy with hy | ⟨rfl, hno⟩
    · obtain ⟨i, hi, hC, hG⟩ := h.left y hy
      have hij : i ≠ j := fun heq => hG (heq ▸ hj)
      exact ⟨i, hi, hC, hsame i hij ▸ hG⟩
    · refine ⟨j, hx, ?_, hj'⟩
      by_contra hC
      obtain ⟨z, hz, hzj⟩ := h.gained j hC hj
      exact hno (hs.eq_of_holds hzj hx ▸ hz)
  gained := by
    intro i hC hG
    have hij : i ≠ j := fun heq => hj' (heq ▸ hG)
    obtain ⟨y, hy, hyi⟩ := h.gained i hC (hsame i hij ▸ hG)
    have hne : y ≠ x := fun heq => hij (hs.number_eq (heq ▸ hyi) hx)
    exact ⟨y, (LinkState.mem_joined_without hd).2 ⟨hne, hy⟩, hyi⟩

theorem Drafts.misses_without (h : s.Counts root k C G st) (hmisses : s.Misses root k C G st)
    (hd : st.Distinct) : s.Misses root k C G' (st.without x) := by
  intro i hC hG
  by_cases hij : i = j
  · subst hij
    refine ⟨x, LinkState.mem_left_without_self hd (fun hjoined => ?_) fun b now heq => ?_, hx⟩
    · obtain ⟨i', hi', hC', -⟩ := h.joined x hjoined
      exact hC' (hs.number_eq hi' hx ▸ hC)
    · obtain ⟨xs, rfl, hxs⟩ := h.before b now heq
      obtain ⟨y, hy, hyi⟩ := hxs.complete i hC
      exact hs.eq_of_holds hyi hx ▸ hy
  · obtain ⟨y, hy, hyi⟩ := hmisses i hC (hsame i hij ▸ hG)
    exact ⟨y, LinkState.mem_left_without_of_mem hd hy, hyi⟩

end

/-! ## Putting a record into a list -/

section

variable (hx : s.Holds x root j) (hC : C j ≠ .int k) (hj : G j ≠ .int k) (hj' : G' j = .int k)
  (hsame : ∀ i, i ≠ j → G' i = G i)

include hx hC

omit hj hj' hsame in
/-- A record whose cell has another number was never in the list. -/
theorem Drafts.having_eq (h : s.Counts root k C G st) :
    (∃ added removed, st = .unread added removed ∧ x ∉ removed ∧
      st.having x = .unread (added ++ [x]) removed) ∨
    ∃ xs now, st = .read (some xs) now ∧ x ∉ xs ∧ st.having x = .read (some xs) (now ++ [x]) := by
  cases st with
  | unread added removed =>
    have hno : x ∉ removed := fun hmem => by
      obtain ⟨i, hi, hCi, -⟩ := h.left x hmem
      exact hC (hs.number_eq hi hx ▸ hCi)
    refine Or.inl ⟨added, removed, rfl, hno, ?_⟩
    rw [LinkState.having, if_neg (by simpa using hno)]
  | read before now =>
    obtain ⟨xs, rfl, hxs⟩ := h.before before now rfl
    refine Or.inr ⟨xs, now, rfl, fun hmem => ?_, rfl⟩
    obtain ⟨i, hi, hCi⟩ := hxs.sound x hmem
    exact hC (hs.number_eq hi hx ▸ hCi)

include hj hj' hsame

theorem Drafts.counts_having (h : s.Counts root k C G st) :
    s.Counts root k C G' (st.having x) := by
  have hold : ∀ y i, s.Holds y root i → G i = .int k → G' i = .int k := fun y i _ hG =>
    (hsame i fun heq => hj (heq ▸ hG)).trans hG
  have hgone : ∀ i, C i = .int k → G i ≠ .int k → G' i ≠ .int k := fun i hCi hG =>
    hsame i (fun heq => hC (heq ▸ hCi)) ▸ hG
  have hnew : ∀ i, G' i = .int k → G i = .int k ∨ i = j := fun i hG => by
    by_cases hij : i = j
    · exact Or.inr hij
    · exact Or.inl (hsame i hij ▸ hG)
  rcases hs.having_eq hx hC h with ⟨added, removed, rfl, -, heq⟩ | ⟨xs, now, rfl, hno, heq⟩ <;>
    rw [heq]
  · refine ⟨by simp, fun y hy => ?_, fun y hy => ?_, fun i hCi hG => ?_⟩
    · rcases List.mem_append.1 hy with hy | hy
      · exact (h.joined y hy).imp fun i hi => ⟨hi.1, hi.2.1, hold y i hi.1 hi.2.2⟩
      · exact List.mem_singleton.1 hy ▸ ⟨j, hx, hC, hj'⟩
    · exact (h.left y hy).imp fun i hi => ⟨hi.1, hi.2.1, hgone i hi.2.1 hi.2.2⟩
    · rcases hnew i hG with hG | rfl
      · exact (h.gained i hCi hG).imp fun _ hy => ⟨List.mem_append_left _ hy.1, hy.2⟩
      · exact ⟨x, List.mem_append_right _ List.mem_cons_self, hx⟩
  · refine ⟨?_, fun y hy => ?_, fun y hy => ?_, fun i hCi hG => ?_⟩
    · rintro _ _ ⟨⟩
      exact h.before _ _ rfl
    · rw [LinkState.mem_joined_read] at hy
      rcases List.mem_append.1 hy.1 with hmem | hmem
      · exact (h.joined y (LinkState.mem_joined_read.2 ⟨hmem, hy.2⟩)).imp fun i hi =>
          ⟨hi.1, hi.2.1, hold y i hi.1 hi.2.2⟩
      · exact List.mem_singleton.1 hmem ▸ ⟨j, hx, hC, hj'⟩
    · rw [LinkState.mem_left_read] at hy
      exact (h.left y (LinkState.mem_left_read.2 ⟨hy.1, fun hmem =>
        hy.2 (List.mem_append_left _ hmem)⟩)).imp fun i hi => ⟨hi.1, hi.2.1, hgone i hi.2.1 hi.2.2⟩
    · rcases hnew i hG with hG | rfl
      · obtain ⟨y, hy, hyi⟩ := h.gained i hCi hG
        rw [LinkState.mem_joined_read] at hy
        exact ⟨y, LinkState.mem_joined_read.2 ⟨List.mem_append_left _ hy.1, hy.2⟩, hyi⟩
      · exact ⟨x, LinkState.mem_joined_read.2 ⟨List.mem_append_right _ List.mem_cons_self, hno⟩,
          hx⟩

omit hj hj' in
theorem Drafts.misses_having (h : s.Counts root k C G st) (hmisses : s.Misses root k C G st) :
    s.Misses root k C G' (st.having x) := by
  intro i hCi hG
  have hij : i ≠ j := fun heq => hC (heq ▸ hCi)
  obtain ⟨y, hy, hyi⟩ := hmisses i hCi (hsame i hij ▸ hG)
  have hne : y ≠ x := fun heq => hij (hs.number_eq (heq ▸ hyi) hx)
  refine ⟨y, ?_, hyi⟩
  rcases hs.having_eq hx hC h with ⟨added, removed, rfl, -, heq⟩ | ⟨xs, now, rfl, -, heq⟩ <;>
    rw [heq]
  · exact hy
  · rw [LinkState.mem_left_read] at hy ⊢
    exact ⟨hy.1, fun hmem => (List.mem_append.1 hmem).elim hy.2 fun hmem =>
      hne (List.mem_singleton.1 hmem)⟩

omit hj' hsame in
theorem Drafts.distinct_having (h : s.Counts root k C G st) (hd : st.Distinct) :
    (st.having x).Distinct := by
  have hno : x ∉ st.joined := fun hmem => by
    obtain ⟨i, hi, -, hG⟩ := h.joined x hmem
    exact hj (hs.number_eq hi hx ▸ hG)
  have happend : ∀ {xs : List Ref}, xs.Nodup → x ∉ xs → (xs ++ [x]).Nodup := fun hxs hmem =>
    List.nodup_append.2 ⟨hxs, List.nodup_singleton x, fun a ha b hb heq =>
      hmem (List.mem_singleton.1 hb ▸ heq ▸ ha)⟩
  rcases hs.having_eq hx hC h with ⟨added, removed, rfl, -, heq⟩ | ⟨xs, now, rfl, hbefore, heq⟩ <;>
    rw [heq]
  · exact ⟨happend hd.1 hno, hd.2⟩
  · exact happend hd fun hmem => hno (LinkState.mem_joined_read.2 ⟨hmem, hbefore⟩)

end

/-! ## Reading a list -/

section

variable {stored added removed : List Ref} (hstored : s.Lists root k C stored)

include hstored

theorem Drafts.counts_read (h : s.Counts root k C G (.unread added removed)) :
    s.Counts root k C G
    (.read (some stored) ((stored ++ added).filter fun x => !removed.contains x)) := by
  have hnow : ∀ {y}, y ∈ (stored ++ added).filter (fun x => !removed.contains x) ↔
      (y ∈ stored ∨ y ∈ added) ∧ y ∉ removed := fun {y} => by simp [or_and_right]
  refine ⟨?_, fun y hy => ?_, fun y hy => ?_, fun i hC hG => ?_⟩
  · rintro _ _ ⟨⟩
    exact ⟨stored, rfl, hstored⟩
  · rw [LinkState.mem_joined_read, hnow] at hy
    exact h.joined y (hy.1.1.resolve_left hy.2)
  · rw [LinkState.mem_left_read, hnow] at hy
    exact h.left y (by_contra fun hno => hy.2 ⟨Or.inl hy.1, hno⟩)
  · obtain ⟨y, hy, hyi⟩ := h.gained i hC hG
    refine ⟨y, LinkState.mem_joined_read.2 ⟨hnow.2 ⟨Or.inr hy, fun hmem => ?_⟩, fun hmem => ?_⟩,
      hyi⟩
    · obtain ⟨i', hi', hC', -⟩ := h.left y hmem
      exact hC (hs.number_eq hi' hyi ▸ hC')
    · obtain ⟨i', hi', hC'⟩ := hstored.sound y hmem
      exact hC (hs.number_eq hi' hyi ▸ hC')

theorem Drafts.misses_read (hmisses : s.Misses root k C G (.unread added removed)) :
    s.Misses root k C G
      (.read (some stored) ((stored ++ added).filter fun x => !removed.contains x)) := by
  intro i hC hG
  obtain ⟨y, hy, hyi⟩ := hmisses i hC hG
  obtain ⟨z, hz, hzi⟩ := hstored.complete i hC
  obtain rfl := hs.eq_of_holds hzi hyi
  have hy : z ∈ removed := hy
  exact ⟨z, LinkState.mem_left_read.2 ⟨hz, by simp [hy]⟩, hyi⟩

theorem Drafts.distinct_read (h : s.Counts root k C G (.unread added removed)) (hn : stored.Nodup)
    (hd : (LinkState.unread added removed).Distinct) : (LinkState.read (some stored)
      ((stored ++ added).filter fun x => !removed.contains x)).Distinct := by
  refine List.Nodup.filter _ (List.nodup_append.2 ⟨hn, hd.1, fun a ha b hb heq => ?_⟩)
  obtain ⟨i, hi, hC⟩ := hstored.sound a ha
  obtain ⟨i', hi', hC', -⟩ := h.joined b hb
  exact hC' (hs.number_eq hi (heq ▸ hi') ▸ hC)

end

/-- What is known of a list that was read is all of it, if it misses what left it. -/
theorem Drafts.lists_now {before : Option (List Ref)} {now : List Ref}
    (h : s.Counts root k C G (.read before now))
    (hmisses : s.Misses root k C G (.read before now)) : s.Lists root k G now := by
  obtain ⟨xs, rfl, hxs⟩ := h.before before now rfl
  refine ⟨fun y hy => ?_, fun i hG => ?_⟩
  · by_cases hmem : y ∈ xs
    · obtain ⟨i, hi, hC⟩ := hxs.sound y hmem
      refine ⟨i, hi, by_contra fun hG => ?_⟩
      obtain ⟨z, hz, hzi⟩ := hmisses i hC hG
      rw [LinkState.mem_left_read] at hz
      exact hz.2 (hs.eq_of_holds hzi hi ▸ hy)
    · exact (h.joined y (LinkState.mem_joined_read.2 ⟨hy, hmem⟩)).imp fun i hi => ⟨hi.1, hi.2.2⟩
  · by_cases hC : C i = .int k
    · obtain ⟨y, hy, hyi⟩ := hxs.complete i hC
      refine ⟨y, by_contra fun hno => ?_, hyi⟩
      obtain ⟨i', hi', -, hG'⟩ := h.left y (LinkState.mem_left_read.2 ⟨hy, hno⟩)
      exact hG' (hs.number_eq hi' hyi ▸ hG)
    · obtain ⟨y, hy, hyi⟩ := h.gained i hC hG
      exact ⟨y, (LinkState.mem_joined_read.1 hy).1, hyi⟩

/-- All records of a number are listed. -/
theorem Drafts.mem_lists_iff {xs : List Ref} (h : s.Lists root k C xs) (hx : s.Holds x root j) :
    x ∈ xs ↔ C j = .int k := by
  constructor
  · intro hmem
    obtain ⟨i, hi, hC⟩ := h.sound x hmem
    exact hs.number_eq hi hx ▸ hC
  · intro hC
    obtain ⟨y, hy, hyj⟩ := h.complete j hC
    exact hs.eq_of_holds hyj hx ▸ hy

/-! ## Giving a list other records -/

section

variable {before now : List Ref} (hbefore : s.Lists root k C before) (hnow : s.Lists root k G now)

include hbefore hnow

theorem Drafts.counts_given : s.Counts root k C G (.read (some before) now) := by
  refine ⟨?_, fun y hy => ?_, fun y hy => ?_, fun i hC hG => ?_⟩
  · rintro _ _ ⟨⟩
    exact ⟨before, rfl, hbefore⟩
  · rw [LinkState.mem_joined_read] at hy
    obtain ⟨i, hi, hG⟩ := hnow.sound y hy.1
    exact ⟨i, hi, mt (hs.mem_lists_iff hbefore hi).2 hy.2, hG⟩
  · rw [LinkState.mem_left_read] at hy
    obtain ⟨i, hi, hC⟩ := hbefore.sound y hy.1
    exact ⟨i, hi, hC, mt (hs.mem_lists_iff hnow hi).2 hy.2⟩
  · obtain ⟨y, hy, hyi⟩ := hnow.complete i hG
    exact ⟨y, LinkState.mem_joined_read.2 ⟨hy, mt (hs.mem_lists_iff hbefore hyi).1 hC⟩, hyi⟩

theorem Drafts.misses_given : s.Misses root k C G (.read (some before) now) := by
  intro i hC hG
  obtain ⟨y, hy, hyi⟩ := hbefore.complete i hC
  exact ⟨y, LinkState.mem_left_read.2 ⟨hy, mt (hs.mem_lists_iff hnow hyi).1 hG⟩, hyi⟩

end

end Catalog

end Hypermedia
