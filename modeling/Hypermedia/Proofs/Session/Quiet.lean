import Hypermedia.Proofs.Session.Carrying
import Hypermedia.Proofs.Session.Flushing

/-!
# Sessions that only read

What a quiet session knows of its stored records is what the database says: nothing was
given to them, and what was read of their links is what the database links them to
(`Catalog.Clean`, `Catalog.Quiet`). A session begins quiet and reading keeps it quiet
(`Quiet.reading`). A quiet session has nothing to write but deletions.
-/

namespace Hypermedia

namespace Catalog

/-- A stored record that was only read. -/
structure Clean (c : Catalog) (D : Database) (s : Session) (e : Entry) : Prop where
  stored : e.isStored = true
  values : e.values = []
  link : ∀ st ∈ e.links, ∃ xs, st.2 = .read (some xs) xs ∧
    ∀ l, e.model.link? st.1 = some l → c.Linked D s e l xs

/-- A session of drafts whose stored records were only read. -/
structure Quiet (c : Catalog) (D : Database) (s : Session) : Prop extends c.Drafts D s where
  clean : ∀ e ∈ s.entries, e.phase = .fresh ∨ c.Clean D s e

variable {c : Catalog} {D : Database} {H : Ref → Prop} {s t : Session}

theorem Clean.mono {e : Entry} (h : c.Clean D s e) (hst : s.SeenFrom t) : c.Clean D t e where
  stored := h.stored
  values := h.values
  link := fun st hmem => (h.link st hmem).imp fun _ h => ⟨h.1, fun l hl => (h.2 l hl).mono hst⟩

/-- The records of a link of a record that was only read. -/
theorem Clean.linkState {e : Entry} (h : c.Clean D s e) (name : String) :
    e.linkState name = .unread [] [] ∨ ∃ xs, e.linkState name = .read (some xs) xs ∧
      ∀ l, e.model.link? name = some l → c.Linked D s e l xs := by
  unfold Entry.linkState
  split
  · next st hst =>
    obtain ⟨⟨n, st'⟩, hfind, rfl⟩ := Option.map_eq_some_iff.1 hst
    have hname : n = name := by simpa using List.find?_some hfind
    exact Or.inr (hname ▸ h.link _ (List.mem_of_find?_eq_some hfind))
  · simp [h.stored]

theorem drafts_start (D : Database) : c.Drafts D (.start D) where
  db := rfl
  committed := rfl
  failed := rfl
  eager := rfl
  draft := by simp [Session.start]
  numbers := by simp [Session.start]
  distinct := by simp [Session.start]
  keys := by simp [Session.start]

theorem edited_start (D : Database) : c.Edited D (fun _ => False) (.start D) where
  toDrafts := drafts_start D
  kept := by simp [Session.start]
  held := by simp
  before := by simp

theorem carrying_start (D : Database) (Q : Entry → Prop) : c.Carrying D 0 Q (.start D) where
  toDrafts := drafts_start D
  since := Nat.zero_le _
  carried := by simp [Session.start]

/-- A record that is stored may be held. -/
theorem Edited.hold (h : c.Edited D H s) {e : Entry} (he : e ∈ s.entries)
    (hst : e.isStored = true) : c.Edited D (· = e.ref) s where
  toDrafts := h.toDrafts
  kept := h.kept
  held := fun e' he' href => by
    rwa [Session.eq_of_ref_eq h.distinct he' he href]
  before := fun r hr => hr ▸ h.numbers e he

theorem quiet_start (D : Database) : c.Quiet D (.start D) where
  toDrafts := drafts_start D
  clean := by simp [Session.start]

/-- A quiet session has nothing to write but deletions. -/
theorem Quiet.calm (h : c.Quiet D s) : s.Calm := by
  intro e he hmember
  rcases h.clean e he with hfresh | hclean
  · simp [Entry.isMember, hfresh] at hmember
  · refine ⟨?_, ?_⟩
    · have hstored := hclean.stored
      cases hph : e.phase <;> simp_all [Entry.isStored, Entry.isPending]
    · simp only [Entry.isChanged, hclean.values, List.isEmpty_nil, Bool.not_true, Bool.false_or,
        List.any_eq_false]
      intro st hst
      obtain ⟨xs, hxs, -⟩ := hclean.link st hst
      simp [hxs, LinkState.isChanged]

/-- Reading keeps a session quiet. -/
theorem Quiet.reading (hp : c.Plain) (hD : c.Sound D) : c.Reading D (c.Quiet D) where
  drafts := Quiet.toDrafts
  receive := by
    intro s m n row hs hnew hn hno
    refine ⟨hs.toDrafts.receive hp hD hnew hn hno, fun e he => ?_⟩
    rcases List.mem_append.1 he with he | he
    · exact (hs.clean e he).imp id fun h => h.mono (.receive s n _ _)
    · obtain rfl := List.mem_singleton.1 he
      exact Or.inr ⟨rfl, rfl, by simp⟩
  readLink := by
    intro s₀ s e₀ e l added removed stored hs₀ hseen he₀ href₀ hmodel hphase hst hs he hl hlinked
    refine ⟨(Drafts.reading hp hD).readLink hs₀.toDrafts hseen he₀ href₀ hmodel hphase hst
      hs.toDrafts he hl hlinked, fun e' he' => ?_⟩
    have hseen := Session.SeenFrom.setLink s e.ref l.name
      (.read (some stored) ((stored ++ added).filter fun x => !removed.contains x))
    obtain ⟨e₁, he₁, ⟨href, rfl⟩ | ⟨-, rfl⟩⟩ := Session.mem_modify he'
    swap
    · exact (hs.clean _ he₁).imp id fun h => h.mono hseen
    rcases hs.clean e₁ he₁ with hfresh | hclean
    · exact Or.inl hfresh
    obtain rfl : e₁ = e := Session.eq_of_ref_eq hs.distinct he₁ he href
    -- The link was not read before, so nothing was added to it or removed from it.
    have hnone : added = [] ∧ removed = [] := by
      rcases hs₀.clean e₀ he₀ with hfresh | hclean₀
      · have hstored := hclean.stored
        simp [Entry.isStored, ← hphase, hfresh] at hstored
      · rcases hclean₀.linkState l.name with h | ⟨xs, h, -⟩
        · rw [hst] at h
          simpa using h
        · rw [hst] at h
          cases h
    obtain ⟨rfl, rfl⟩ := hnone
    refine Or.inr ⟨hclean.stored, hclean.values, fun st hmem => ?_⟩
    rcases List.mem_append.1 hmem with hmem | hmem
    · obtain ⟨xs, hxs, hxl⟩ := hclean.link st (List.mem_filter.1 hmem).1
      exact ⟨xs, hxs, fun l' hl' => ((hxl l' hl').mono hseen).congr rfl rfl rfl⟩
    · obtain rfl := List.mem_singleton.1 hmem
      refine ⟨stored, by simp, fun l' hl' => ?_⟩
      have hsame : some l = some l' :=
        (hp.link?_eq (hs.draft _ he).model hl).symm.trans hl'
      exact Option.some.inj hsame ▸ (hlinked.mono hseen).congr rfl rfl rfl

end Catalog

end Hypermedia
