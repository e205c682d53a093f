import Hypermedia.Proofs.Session.Committing
import Hypermedia.Proofs.Session.Linking

/-!
# Storing records

A record of a session of drafts is stored with everything that changed, or nothing is
(`Act.ends_persist`).
-/

namespace Hypermedia

/-- The records of a session are those of another; some more of them are to be stored. -/
def Session.EnrolledFrom (s₀ s : Session) : Prop :=
  ∀ e₀ ∈ s₀.entries, ∃ e ∈ s.entries, e.ref = e₀.ref ∧ e.model = e₀.model ∧ e.key = e₀.key ∧
    e.values = e₀.values ∧ (e₀.isMember = true → e.phase = e₀.phase)

namespace Catalog

/-- A session after a record was stored with everything that changed since another. What was
written is what some session had that is like `I`, in which the record is to be stored; `W` is
kept by writing it. -/
structure Persisted (c : Catalog) (I : Session → Prop) (W : Session → Session → Prop)
    (s : Session) (r : Ref) (t : Session) : Prop where
  known : ∃ e ∈ s.entries, e.ref = r
  sound : c.Sound t.db
  quiet : c.Quiet t.db t
  stored : ∃ e ∈ t.entries, e.ref = r ∧ e.isStored = true
  written : ∃ u v, I u ∧ s.EnrolledFrom u ∧ W u v ∧ t.db = v.db ∧
    ∀ e ∈ t.entries, ∃ e₀ ∈ v.entries, Commits e₀ e
  text : ∀ e₀ ∈ s.entries, e₀.isStored = true → ∀ name x, e₀.model.column? name = some x →
    e₀.model.isOwn x.column = true → x.column.type = .string →
      ∀ e ∈ t.entries, e.ref = e₀.ref → e.cell t.db name = e₀.cell s.db name

end Catalog

namespace Act

variable {c : Catalog} {D : Database} {H : Ref → Prop} {s₀ s : Session}

theorem keeps_enrolledFrom (r : Ref) : Keeps s₀.EnrolledFrom (enroll r) fun _ => True := by
  refine fun s hs => ⟨fun e₀ he₀ => ?_, trivial⟩
  obtain ⟨e, he, href, hmodel, hkey, hvalues, hphase⟩ := hs e₀ he₀
  refine ⟨_, List.mem_map_of_mem he, ?_⟩
  split
  · dsimp only
    split
    · next hfresh =>
      refine ⟨href, hmodel, hkey, hvalues, fun hmember => ?_⟩
      have hsame := hphase hmember
      rw [hfresh] at hsame
      simp [Entry.isMember, ← hsame] at hmember
    · exact ⟨href, hmodel, hkey, hvalues, hphase⟩
  · exact ⟨href, hmodel, hkey, hvalues, hphase⟩

/-- A record that is to be stored is among those that the session writes. -/
theorem keeps_member (r x : Ref) :
    Keeps (fun s => ∀ e ∈ s.entries, e.ref = r → e.isMember = true) (enroll x) fun _ => True := by
  refine fun s hs => ⟨fun e he href => ?_, trivial⟩
  obtain ⟨e₀, he₀, ⟨-, rfl⟩ | ⟨-, rfl⟩⟩ := Session.mem_modify he
  · by_cases hfresh : e₀.phase = .fresh
    · rw [if_pos hfresh]
      rfl
    · rw [if_neg hfresh] at href ⊢
      exact hs e₀ he₀ href
  · exact hs _ he₀ href

/-- A record that is added is to be stored from then on. -/
theorem ends_add {I : Session → Prop} (hI : c.Enrolling D I) (hs : I s) (r : Ref) : Ends (add r) s
    (fun _ t => (∃ e ∈ s.entries, e.ref = r) ∧ I t ∧ s.EnrolledFrom t ∧
      ∀ e ∈ t.entries, e.ref = r → e.isMember = true)
    fun _ t => t.committed = D := by
  have hdrafts := hI.drafts hs
  unfold add
  refine (still_entry r).ends_bind (fun e he => ?_) fun _ => hdrafts.committed
  split
  · exact hdrafts.committed
  · have hself : s.EnrolledFrom s := fun e₀ he₀ => ⟨e₀, he₀, rfl, rfl, rfl, rfl, fun _ => rfl⟩
    rw [ends_bind]
    -- The record itself is to be stored from here on.
    have hmember : Ends (enroll r) s (fun _ t => ∀ e ∈ t.entries, e.ref = r → e.isMember = true)
        fun _ _ => True := by
      intro e he href
      obtain ⟨e₀, he₀, ⟨-, rfl⟩ | ⟨hne, rfl⟩⟩ := Session.mem_modify he
      · rcases (hdrafts.draft e₀ he₀).phase with hph | ⟨n, hph⟩ | hph <;>
          simp [Entry.isMember, hph]
      · exact absurd href hne
    refine ((((hI.enroll r).and (keeps_enrolledFrom r)) s ⟨hs, hself⟩).and hmember).imp
      (fun _ t ht => ?_) fun _ _ h => (hI.drafts h.1.1).committed
    have ht := And.intro ht.1.1 ht.2
    rw [ends_bind, ends_get]
    dsimp only
    rw [ends_bind]
    refine (keeps_spread (fun x => (((hI.enroll x).and (keeps_enrolledFrom x)).and
      (keeps_member r x)).true) _ _ _ t ht).imp (fun _ u h => ?_)
        fun _ _ h => (hI.drafts h.1.1).committed
    exact ⟨⟨e, Session.known?_mem he⟩, h.1.1.1, h.1.1.2, h.1.2⟩

/-- A record is stored with everything that changed, or what was committed stays. -/
theorem ends_persist (hp : c.Plain) (hD : c.Sound D) {I : Session → Prop} (hI : c.Enrolling D I)
    (hE : ∀ u, I u → c.Edited D H u) {W : Session → Session → Prop} {r : Ref}
    (hW : ∀ u, I u → (∃ e ∈ u.entries, e.ref = r ∧ e.isMember = true) → c.Yields u (W u))
    (hs : I s) :
    Ends (persist c r) s (fun _ t => c.Persisted I W s r t) fun _ t => t.committed = D := by
  unfold persist
  rw [ends_bind]
  refine (ends_add hI hs r).imp (fun _ u hadded => ?_) fun _ _ h => h
  obtain ⟨⟨e, he, hr⟩, hu, hfrom, hmember⟩ := hadded
  obtain ⟨e', he', href, -⟩ := hfrom e he
  have hmember := hmember e' he' (href.trans hr)
  rw [ends_tryCatch]
  refine (ends_commit hp hD (hE u hu) (hW u hu ⟨e', he', href.trans hr, hmember⟩)).imp
    (fun _ t ht => ?_) fun f t ht => ?_
  rotate_left
  · -- A fault of the store is only given another name, after a rollback.
    have ht := ht.trans (hE u hu).committed
    split <;> exact ht
  refine ⟨⟨e, he, hr⟩, ht.sound, ht.quiet, ?_, ?_, ?_⟩
  · obtain ⟨e'', he'', href', hst⟩ := ht.stored e' he' hmember
    exact ⟨e'', he'', href'.trans (href.trans hr), hst⟩
  · obtain ⟨v, hwv, hdb, hentries⟩ := ht.written
    exact ⟨u, v, hu, hfrom, hwv, hdb, hentries⟩
  · intro e₀ he₀ hst name x hx hown htype e₁ he₁ href₁
    obtain ⟨e₂, he₂, href₂, hmodel, hkey, hvalues, hphase⟩ := hfrom e₀ he₀
    have hst₂ : e₂.isStored = true := by
      have hmember : e₀.isMember = true := by
        cases hph : e₀.phase <;> simp_all [Entry.isStored, Entry.isMember]
      rwa [Session.isStored_congr (hphase hmember)]
    rw [ht.text e₂ he₂ hst₂ name x (hmodel ▸ hx) (hmodel ▸ hown) htype e₁ he₁
      (href₁.trans href₂.symm), (hE u hu).db, (hE s hs).db]
    simp [Entry.cell, Entry.row?, Entry.given?, hmodel, hkey, hvalues]

end Act

end Hypermedia
