import Hypermedia.Proofs.Session.Quiet

/-!
# What some records hold

Before something is given to a record the session forgets the stored records that nothing holds
any more. Following links for as many rounds as there are records finds all that some records
hold: a round that is not enough finds a record that was missing (`Session.closed_withHeld`). So
the records at the end of a link that was read stay with the record that has the link, and a
session that only read is still one when it forgot the others (`Catalog.Quiet.keep`), and the
records may be given something then (`Catalog.Viewing.hold`).
-/

namespace Hypermedia

namespace Session

variable {s : Session} {rs : List Ref}

/-- Every record that the records hold is one of them, if the session knows it. -/
def Closed (s : Session) (rs : List Ref) : Prop :=
  ∀ e ∈ s.entries, e.ref ∈ s.heldBy rs → e.ref ∈ rs

/-- Some records with those at the ends of their links. -/
def follow (s : Session) (rs : List Ref) : List Ref :=
  rs ++ (s.heldBy rs).filter fun r => !rs.contains r

/-- The known records that are not among some. -/
def missing (s : Session) (rs : List Ref) : List Entry :=
  s.entries.filter fun e => !rs.contains e.ref

theorem mem_heldBy {x : Ref} : x ∈ s.heldBy rs ↔
    ∃ e ∈ s.entries, e.ref ∈ rs ∧ ∃ st ∈ e.links, x ∈ st.2.current := by
  simp [heldBy, and_assoc]

theorem mem_follow {x : Ref} : x ∈ s.follow rs ↔ x ∈ rs ∨ x ∈ s.heldBy rs := by
  by_cases hx : x ∈ rs <;> simp [follow, hx]

/-- Following the links of closed records finds no known record. -/
theorem Closed.follow (h : s.Closed rs) : s.Closed (s.follow rs) := by
  intro e he hmem
  obtain ⟨o, ho, homem, hlink⟩ := mem_heldBy.1 hmem
  have hrs : o.ref ∈ rs := (mem_follow.1 homem).elim id (h o ho)
  exact mem_follow.2 (Or.inr (mem_heldBy.2 ⟨o, ho, hrs, hlink⟩))

theorem Closed.withHeld (h : s.Closed rs) (rounds : Nat) : s.Closed (s.withHeld rounds rs) := by
  induction rounds generalizing rs with
  | zero => exact h
  | succ rounds ih => exact ih h.follow

/-- A round after which records are not closed yet finds one that was missing. -/
theorem length_missing_follow (h : ¬s.Closed rs) :
    (s.missing (s.follow rs)).length < (s.missing rs).length := by
  have heq : s.missing (s.follow rs) =
      (s.missing rs).filter fun e => !(s.follow rs).contains e.ref := by
    rw [missing, missing, List.filter_filter]
    refine List.filter_congr fun e _ => ?_
    by_cases hmem : e.ref ∈ rs
    · simp [hmem, mem_follow.2 (Or.inl hmem)]
    · simp [hmem]
  unfold Closed at h
  push Not at h
  obtain ⟨e, he, hheld, hno⟩ := h
  rw [heq, List.length_filter_lt_length_iff_exists]
  exact ⟨e, List.mem_filter.2 ⟨he, by simpa using hno⟩, by simp [mem_follow, hheld]⟩

/-- A round for each missing record is enough to find all that is held. -/
theorem closed_withHeld_of_le {rounds : Nat} (h : (s.missing rs).length ≤ rounds) :
    s.Closed (s.withHeld rounds rs) := by
  induction rounds generalizing rs with
  | zero =>
    have hnil := List.length_eq_zero_iff.1 (Nat.le_zero.1 h)
    intro e he _
    have hmem : e.ref ∈ rs := by simpa using List.filter_eq_nil_iff.1 hnil e he
    exact hmem
  | succ rounds ih =>
    by_cases hclosed : s.Closed rs
    · exact hclosed.follow.withHeld rounds
    · exact ih (Nat.le_of_lt_succ (Nat.lt_of_lt_of_le (length_missing_follow hclosed) h))

theorem closed_withHeld (s : Session) (rs : List Ref) :
    s.Closed (s.withHeld s.entries.length rs) :=
  closed_withHeld_of_le (List.length_filter_le _ _)

theorem mem_withHeld {x : Ref} (h : x ∈ rs) (rounds : Nat) : x ∈ s.withHeld rounds rs := by
  induction rounds generalizing rs with
  | zero => exact h
  | succ rounds ih => exact ih (List.mem_append_left _ h)

theorem mem_keep {e : Entry} : e ∈ (s.keep rs).entries ↔
    e ∈ s.entries ∧ (e.isStored = true → e.ref ∈ s.withHeld s.entries.length rs) := by
  simp only [keep, List.mem_filter, Bool.or_eq_true, Bool.not_eq_true', List.contains_iff_mem]
  cases e.isStored <;> simp

/-- A record that is held is still known by its number. -/
theorem Holds.keep {r : Ref} {root : String} {k : Int} (h : s.Holds r root k)
    (hr : r ∈ s.withHeld s.entries.length rs) : (s.keep rs).Holds r root k := by
  obtain ⟨e, he, rfl, hst, hroot, hk⟩ := h
  exact ⟨e, mem_keep.2 ⟨he, fun _ => hr⟩, rfl, hst, hroot, hk⟩

end Session

namespace Catalog

variable {c : Catalog} {D : Database} {s : Session}

/-- A session that only read is still one when it forgot what nothing holds. -/
theorem Quiet.keep (hs : c.Quiet D s) (rs : List Ref) : c.Quiet D (s.keep rs) where
  toDrafts := hs.toDrafts.filter _
  clean := by
    intro e he
    obtain ⟨he, hheld⟩ := Session.mem_keep.1 he
    refine (hs.clean e he).imp id fun hclean => ⟨hclean.stored, hclean.values, fun st hst => ?_⟩
    obtain ⟨xs, hxs, hlinked⟩ := hclean.link st hst
    refine ⟨xs, hxs, fun l hl m hm => (forall₂_imp_mem (hlinked l hl m hm).flip
      fun row x hx hrow => ?_).flip⟩
    obtain ⟨k, hid, hk⟩ := hrow
    refine ⟨k, hid, hk.keep ?_⟩
    obtain ⟨o, ho, rfl, -⟩ := hk
    exact Session.closed_withHeld s rs o ho
      (Session.mem_heldBy.2 ⟨e, he, hheld hclean.stored, st, hst, hxs ▸ hx⟩)

/-- A session that only read, and that made no records. Of the records in `H` it is known that they
are stored. -/
structure Viewing (c : Catalog) (D : Database) (H : Ref → Prop) (s : Session) : Prop extends
    c.Quiet D s where
  edited : c.Edited D H s
  stored : ∀ e ∈ s.entries, e.isStored = true

theorem viewing_start (D : Database) : c.Viewing D (fun _ => False) (.start D) where
  toQuiet := quiet_start D
  edited := edited_start D
  stored := by simp [Session.start]

variable {H : Ref → Prop}

/-- Reading makes no records. -/
theorem Viewing.reading (hp : c.Plain) (hD : c.Sound D) : c.Reading D (c.Viewing D H) where
  drafts := fun h => h.toDrafts
  receive := by
    intro s m n row hs hnew hn hno
    refine ⟨(Quiet.reading hp hD).receive hs.toQuiet hnew hn hno,
      (Edited.reading hp hD).receive hs.edited hnew hn hno, fun e he => ?_⟩
    rcases List.mem_append.1 he with he | he
    · exact hs.stored e he
    · exact List.mem_singleton.1 he ▸ rfl
  readLink := by
    intro s₀ s e₀ e l added removed stored hs₀ hseen he₀ href₀ hmodel hphase hst hs he hl hlinked
    refine ⟨(Quiet.reading hp hD).readLink hs₀.toQuiet hseen he₀ href₀ hmodel hphase hst hs.toQuiet
      he hl hlinked, (Edited.reading hp hD).readLink hs₀.edited hseen he₀ href₀ hmodel hphase hst
        hs.edited he hl hlinked, fun e' he' => ?_⟩
    obtain ⟨e₁, he₁, ⟨-, rfl⟩ | ⟨-, rfl⟩⟩ := Session.mem_modify he'
    · exact hs.stored e₁ he₁
    · exact hs.stored _ he₁

/-- A known record may be held. -/
theorem Viewing.hold (h : c.Viewing D H s) {r : Ref} {root : String} {k : Int}
    (hr : s.Holds r root k) : c.Viewing D (· = r) (s.keep [r]) ∧ (s.keep [r]).Holds r root k := by
  have hkeep := hr.keep (Session.mem_withHeld (List.mem_singleton_self r) _)
  obtain ⟨e, he, rfl, hst, -⟩ := id hkeep
  exact ⟨⟨h.toQuiet.keep _, (h.edited.filter _).hold he hst,
    fun e he => h.stored e (Session.mem_keep.1 he).1⟩, hkeep⟩

end Catalog

end Hypermedia
