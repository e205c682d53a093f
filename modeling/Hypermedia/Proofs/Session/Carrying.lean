import Hypermedia.Proofs.Session.Linking

/-!
# What drafts were given

Reading and linking give nothing to the columns of a record: a property of records that only
depends on what they are and on what their columns were given (`Entry.Stable`) stays
(`Catalog.Carrying.editing`). A record that the session gets to know was given nothing yet.
-/

namespace Hypermedia

/-- A property of records that depends on what they are and on what their columns were given.
A stored record with one of the later numbers has it until something is given to it. -/
structure Entry.Stable (n : Nat) (Q : Entry → Prop) : Prop where
  alike : ∀ {e e' : Entry}, Q e → e'.ref = e.ref → e'.model = e.model →
    e'.isStored = e.isStored → e'.key = e.key → e'.values = e.values → Q e'
  known : ∀ {e : Entry}, n ≤ e.ref.number → e.isStored = true → e.values = [] → Q e

/-- That a record was given nothing at all. -/
theorem Entry.stable_nil (n : Nat) : Stable n fun e => e.values = [] where
  alike := fun h _ _ _ _ hvalues => hvalues.trans h
  known := fun _ _ h => h

namespace Catalog

/-- A session of drafts whose records are like `Q`, as records with later numbers will be. -/
structure Carrying (c : Catalog) (D : Database) (n : Nat) (Q : Entry → Prop) (s : Session) :
    Prop extends c.Drafts D s where
  since : n ≤ s.next
  carried : ∀ e ∈ s.entries, Q e

variable {c : Catalog} {D : Database} {n : Nat} {Q : Entry → Prop} {s : Session}

/-- Changing a record in a way that keeps it a draft like `Q`. -/
theorem Carrying.modify (h : c.Carrying D n Q s) {r : Ref} {f : Entry → Entry}
    (hf : ∀ e ∈ s.entries, e.ref = r → c.Draft D (f e) ∧ (f e).ref = e.ref ∧
      (f e).model = e.model ∧ (f e).isStored = e.isStored ∧ (f e).key = e.key ∧ Q (f e)) :
    c.Carrying D n Q (s.modify r f) where
  toDrafts := h.toDrafts.modify fun e he hr =>
    have ⟨h1, h2, h3, h4, h5, _⟩ := hf e he hr
    ⟨h1, h2, h3, h4, h5⟩
  since := h.since
  carried := by
    intro e he
    obtain ⟨e₀, he₀, ⟨hr, rfl⟩ | ⟨-, rfl⟩⟩ := Session.mem_modify he
    · exact (hf e₀ he₀ hr).2.2.2.2.2
    · exact h.carried _ he₀

theorem Carrying.append (h : c.Carrying D n Q s) {e : Entry} (hdrafts : c.Drafts D
    { s with entries := s.entries ++ [e], next := s.next + 1 }) (he : Q e) :
    c.Carrying D n Q { s with entries := s.entries ++ [e], next := s.next + 1 } where
  toDrafts := hdrafts
  since := Nat.le_succ_of_le h.since
  carried := by
    intro e' he'
    rcases List.mem_append.1 he' with he' | he'
    · exact h.carried e' he'
    · exact List.mem_singleton.1 he' ▸ he

theorem Carrying.filter (h : c.Carrying D n Q s) (p : Entry → Bool) :
    c.Carrying D n Q { s with entries := s.entries.filter p } where
  toDrafts := h.toDrafts.filter p
  since := h.since
  carried := fun e he => h.carried e (List.mem_filter.1 he).1

/-- What records carry stays when rows and links are read and when links are given something. -/
theorem Carrying.editing (hp : c.Plain) (hD : c.Sound D) (hQ : Entry.Stable n Q) :
    c.Editing D (c.Carrying D n Q) where
  drafts := Carrying.toDrafts
  receive := fun hs h hn hnew => hs.append (hs.toDrafts.receive hp hD h hn hnew)
    (hQ.known hs.since rfl rfl)
  readLink := by
    intro s₀ s e₀ e l added removed stored hs₀ hseen he₀ href₀ hmodel hphase hst hs he hl hlinked
    refine ⟨(Drafts.reading hp hD).readLink hs₀.toDrafts hseen he₀ href₀ hmodel hphase hst
      hs.toDrafts he hl hlinked, hs.since, fun e' he' => ?_⟩
    obtain ⟨e₁, he₁, ⟨-, rfl⟩ | ⟨-, rfl⟩⟩ := Session.mem_modify he'
    · exact hQ.alike (hs.carried e₁ he₁) rfl rfl rfl rfl rfl
    · exact hs.carried _ he₁
  modify := fun hs hf => hs.modify fun e he hr =>
    have ⟨h1, h2, h3, h4, h5, _, h7⟩ := hf e (hs.draft e he) hr
    ⟨h1, h2, h3, h4, h5, hQ.alike (hs.carried e he) h2 h3 h4 h5 h7⟩

end Catalog

end Hypermedia
