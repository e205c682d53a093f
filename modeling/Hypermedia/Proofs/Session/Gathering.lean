import Hypermedia.Proofs.Occurrences
import Hypermedia.Proofs.Session.Assigning

/-!
# Giving lists other records

When a list is given other records, each one that joins it leaves the list where it was, and the
link back of each one that joins or leaves it leads elsewhere. So the aim changes row by row, first
for the records that join (`Act.ends_gains`) and then for those that leave (`Act.ends_losses`).
Together these changes gather the rows of the records that are given (`Cells.fill_fill_eq_gather`,
`Act.ends_exchange`, `Act.ends_setMany`).
-/

namespace Hypermedia

namespace Cells

variable (G : Cells) (table column : String) (js : List Int) (w : Value)

/-- Some rows have another value in a column. -/
def fill : Cells := G.change table column fun j v => if j ∈ js then w else v

theorem fill_nil : G.fill table column [] w = G := by
  funext t x j
  simp [fill, change]

/-- One row after the other. -/
theorem fill_cons (j : Int) :
    G.fill table column (j :: js) w = (G.put table column j w).fill table column js w := by
  funext t x i
  unfold fill put change
  by_cases h : t = table ∧ x = column
  · simp only [if_pos h, List.mem_cons]
    by_cases hi : i = j <;> simp [hi]
  · simp only [if_neg h]

theorem fill_apply (j : Int) : G.fill table column js w table column j =
    if j ∈ js then w else G table column j := by
  simp [fill, change]

theorem gather_eq_int_iff {k j : Int} :
    G.gather table column k js table column j = .int k ↔ j ∈ js := by
  unfold gather change
  rw [if_pos ⟨rfl, rfl⟩]
  dsimp only
  by_cases hj : j ∈ js
  · simp [hj]
  · rw [if_neg hj]
    refine iff_of_false (fun heq => ?_) hj
    by_cases hG : G table column j = .int k
    · simp [hG, Value.without_self] at heq
    · exact hG (Value.without_of_ne hG ▸ heq)

/-- Gathering rows puts the number into those that have it not, and removes it from others. -/
theorem fill_fill_eq_gather {k : Int} {gained lost : List Int}
    (hgained : ∀ j, j ∈ gained ↔ j ∈ js ∧ G table column j ≠ .int k)
    (hlost : ∀ j, j ∈ lost ↔ j ∉ js ∧ G table column j = .int k) :
    (G.fill table column gained (.int k)).fill table column lost .null =
      G.gather table column k js := by
  funext t x j
  unfold fill gather change
  by_cases h : t = table ∧ x = column
  · obtain ⟨rfl, rfl⟩ := h
    have hgain := hgained j
    have hlose := hlost j
    by_cases hj : j ∈ js <;> by_cases hk : G t x j = .int k <;>
      simp only [hj, hk, true_and, false_and, not_true_eq_false, not_false_eq_true, ne_eq, iff_true,
        iff_false] at hgain hlose <;>
      simp [hj, hk, hgain, hlose, Value.without_self, Value.without_of_ne]
  · simp only [if_neg h]

end Cells

namespace Act

open Catalog

variable {c : Catalog} {D : Database} {K : Ref → String → Int → Prop} {r : Ref}
  {N : Ref → String → Prop} {G F : Cells} {s : Session} {E : Fault → Session → Prop}
  {m t : Model} {l back : Link} {column : String} (hp : c.Plain)
  (hpair : c.Pair m l column t back) (hD : c.Sound D) (hpaired : c.Paired)

include hp hpair hD hpaired

omit hD in
/-- What is not told yet when a link to one of a member of a list leads elsewhere are the other
lists that the member leaves. -/
theorem Aimed.advance (os : List Ref) {o x : Ref} {j k : Int} {w : Value} {G' : Cells}
    (h : c.Aimed D K r N G'
      (retold (retold (fun _ _ => G) o back.name F) x l.name (G.put m.rootTable column j w)) s)
    (ho : s.Holds o t.rootTable k) (hx : s.Holds x m.rootTable j)
    (hos : ∀ y, y ∈ os ↔ y ≠ o ∧ ∃ i, s.Holds y t.rootTable i ∧
      (G m.rootTable column j = .int i ∨ w = .int i)) :
    c.Aimed D K r N G'
      (retold (awaiting G (G.put m.rootTable column j w) back.name os) o back.name F) s := by
  have hs := h.toDrafts
  have hne : ∀ {y i}, s.Holds y t.rootTable i → ¬(y = x ∧ back.name = l.name) :=
    hpair.ne_of_holds hp hs hx
  refine Aimed.bring hp hpair hpaired h hx w fun y n => ?_
  by_cases hy : y = o ∧ n = back.name
  · obtain ⟨rfl, rfl⟩ := hy
    exact Or.inl (by rw [retold_self, retold_of_ne (hne ho), retold_self])
  rw [retold_of_ne hy]
  by_cases hmem : n = back.name ∧ y ∈ os
  · obtain ⟨rfl, hmem⟩ := hmem
    obtain ⟨-, i, hi, -⟩ := (hos y).1 hmem
    exact Or.inl (by rw [awaiting_of_mem hmem, retold_of_ne (hne hi), retold_of_ne hy])
  rw [awaiting, if_neg hmem]
  by_cases hself : y = x ∧ n = l.name
  · exact Or.inl (by rw [hself.1, hself.2, retold_self])
  · rw [retold_of_ne hself, retold_of_ne hy]
    refine Or.inr ⟨rfl, hself, fun hn i hi => not_or.1 fun hor => hmem ⟨hn, ?_⟩⟩
    exact (hos y).2 ⟨fun heq => hy ⟨heq, hn⟩, i, hi, hor⟩

omit hp hpair hD hpaired in
theorem retold_comm {H : Ref → String → Cells} {o o' : Ref} {name : String} {G : Cells}
    (h : o' ≠ o) : retold (retold H o name F) o' name G = retold (retold H o' name G) o name F := by
  funext y n
  unfold retold
  by_cases hy : y = o'
  · subst hy
    simp [h]
  · simp [hy]

/-- What follows from a record being put into a list: it leaves the list where it was. -/
theorem ends_gain {o x : Ref} {j k : Int}
    (h : c.Aimed D K r N G (retold (fun _ _ => G) o back.name F) s)
    (ho : s.Holds o t.rootTable k) (hx : s.Holds x m.rootTable j)
    (hN : ∀ y, y ≠ o → N y back.name) : Ends (gain c o back x) s (fun _ u =>
      c.Aimed D K r N (G.put m.rootTable column j (.int k))
        (retold (fun _ _ => G.put m.rootTable column j (.int k)) o back.name F) u) E := by
  unfold gain keep echoGain claim
  simp only [hpair.backInverse, hpair.inverse, hpair.isOne, Bool.false_eq_true, if_false, ends_bind]
  refine (ends_cascade h ho hx).imp ?_ fun _ _ h => h
  rintro - _ rfl
  refine (ends_markKept h.counting back x).imp (fun _ u hu => ?_) fun _ _ h => h
  have hnew : u.Names t.rootTable (some o).toList (.int k) := .one (hu.holds _ _ _ ho)
  refine (ends_putOne hp hpair hD hu (hu.holds _ _ _ hx) hnew).imp ?_ fun _ _ h => h
  rintro old v ⟨hpeeks, hv⟩
  have hov := hv.holds _ _ _ ho
  have hxv := hv.holds _ _ _ hx
  have hs := hv.toDrafts
  have hne := hpair.ne_of_holds hp hs hxv hov
  have hne' : ¬(x = o ∧ l.name = back.name) := fun h => hne ⟨h.1.symm, h.2.symm⟩
  rw [retold_of_ne hne'] at hpeeks hv
  replace hv := hv.put hp hpair hxv (.int k)
  have hown : ∀ y i, v.Holds y t.rootTable i → Value.int k = .int i → y = o := fun y i hy hi =>
    hs.eq_of_holds (Value.int.inj hi ▸ hy) hov
  -- Either the record was in no other list that is known, or it leaves that list.
  have hrest : (∀ y, y ≠ o → ∀ i, v.Holds y t.rootTable i → G m.rootTable column j ≠ .int i) →
      c.Aimed D K r N (G.put m.rootTable column j (.int k))
        (retold (fun _ _ => G.put m.rootTable column j (.int k)) o back.name F) v := fun hno => by
    have hadvance := Aimed.advance hp hpair hpaired [] hv hov hxv fun y => by
      refine iff_of_false List.not_mem_nil ?_
      rintro ⟨hy, i, hi, hor⟩
      exact hor.elim (hno y hy i hi) fun hk => hy (hown y i hi hk)
    rw [awaiting_nil] at hadvance
    exact h.counted hadvance
  rcases hpeeks.eq_or with ⟨rfl | rfl, hno⟩ | ⟨o', i, rfl, hi, ho'⟩
  · exact hrest fun y _ => hno y
  · exact hrest fun y _ => hno y
  · by_cases heq : o' = o
    · subst heq
      dsimp only
      rw [if_pos (beq_self_eq_true o')]
      exact hrest fun y hy i' hi' hG =>
        hy (hs.eq_of_holds (Value.int.inj (hG.symm.trans hi) ▸ hi') ho')
    · dsimp only
      rw [if_neg (by simpa using heq)]
      unfold release
      rw [if_pos hpair.backIsList]
      have hadvance := Aimed.advance hp hpair hpaired [o'] hv hov hxv fun y => by
        rw [List.mem_singleton]
        constructor
        · rintro rfl
          exact ⟨heq, i, ho', Or.inl hi⟩
        · rintro ⟨hy, i', hi', hor⟩
          rcases hor with hG | hk
          · exact hs.eq_of_holds (Value.int.inj (hG.symm.trans hi) ▸ hi') ho'
          · exact absurd (hown y i' hi' hk) hy
      have hmem := List.mem_singleton_self o'
      have hcells : retold (awaiting G (G.put m.rootTable column j (.int k)) back.name [o']) o
          back.name F o' back.name = G := by
        rw [retold_of_ne fun h => heq h.1, awaiting_of_mem hmem]
      refine (ends_pull (k := i) (w := .int k) hp hpair hadvance ho' hxv (hN o' heq) ?_ ?_).imp
        (fun _ u' hu' => ?_) fun _ _ h => h
      · rwa [hcells]
      · exact fun hk => heq (hs.eq_of_holds ho' (Value.int.inj hk ▸ hov))
      · rw [hcells, retold_comm heq, retold_awaiting (by simp), awaiting_nil] at hu'
        exact h.counted hu'

/-- What follows from a record being taken out of a list. -/
theorem ends_lose_many {o x : Ref} {j k : Int}
    (h : c.Aimed D K r N G (retold (fun _ _ => G) o back.name F) s)
    (ho : s.Holds o t.rootTable k) (hx : s.Holds x m.rootTable j)
    (hj : G m.rootTable column j = .int k) : Ends (lose c o back x) s (fun _ u =>
      c.Aimed D K r N (G.put m.rootTable column j .null)
        (retold (fun _ _ => G.put m.rootTable column j .null) o back.name F) u) E := by
  unfold lose echoLoss release
  simp only [hpair.backInverse, hpair.isOne, Bool.false_eq_true, if_false, ends_bind]
  refine (ends_markLost h.counting (owns_back hp hpair) x).imp (fun _ u hu => ?_) fun _ _ h => h
  have hou := hu.holds _ _ _ ho
  have hxu := hu.holds _ _ _ hx
  refine (ends_peek hp hpair hD hu hxu).imp ?_ fun _ _ h => h
  rintro now u ⟨rfl, hpeeks⟩
  have hne := hpair.ne_of_holds hp hu.toDrafts hxu hou
  have hne' : ¬(x = o ∧ l.name = back.name) := fun h => hne ⟨h.1.symm, h.2.symm⟩
  rw [retold_of_ne hne'] at hpeeks
  rcases hpeeks.eq_or with ⟨-, hno⟩ | ⟨o', i, rfl, hi, ho'⟩
  · exact absurd hj (hno o k hou)
  obtain rfl := Value.int.inj (hi.symm.trans hj)
  obtain rfl := hu.toDrafts.eq_of_holds ho' hou
  simp only [beq_self_eq_true, if_true, ends_bind]
  have hnew : u.Names t.rootTable (none : Option Ref).toList .null := .nothing
  refine (ends_putOne hp hpair hD hu hxu hnew).imp (fun _ v hv => ?_) fun _ _ h => h
  have hv := hv.2
  rw [retold_of_ne hne'] at hv
  have hov := hv.holds _ _ _ ho
  have hxv := hv.holds _ _ _ hx
  have hadvance := Aimed.advance hp hpair hpaired [] (hv.put hp hpair hxv .null) hov hxv
    fun y => by
      refine iff_of_false List.not_mem_nil ?_
      rintro ⟨hy, i', hi', hG | hnull⟩
      · exact hy (hv.toDrafts.eq_of_holds (Value.int.inj (hG.symm.trans hj) ▸ hi') hov)
      · cases hnull
  rw [awaiting_nil] at hadvance
  exact h.counted hadvance

theorem ends_gains {o : Ref} {k : Int} {xs : List Ref} {n : Ref → Int}
    (h : c.Aimed D K r N G (retold (fun _ _ => G) o back.name F) s)
    (ho : K o t.rootTable k) (hxs : ∀ x ∈ xs, K x m.rootTable (n x))
    (hN : ∀ y, y ≠ o → N y back.name) : Ends (xs.forM (gain c o back)) s (fun _ u =>
      c.Aimed D K r N (G.fill m.rootTable column (xs.map n) (.int k))
        (retold (fun _ _ => G.fill m.rootTable column (xs.map n) (.int k)) o back.name F) u) E := by
  induction xs generalizing G s with
  | nil =>
    rw [List.map_nil, Cells.fill_nil]
    exact h
  | cons x xs ih =>
    change Ends (gain c o back x >>= fun _ => xs.forM (gain c o back)) s _ _
    rw [ends_bind]
    refine (ends_gain hp hpair hD hpaired h (h.holds _ _ _ ho)
      (h.holds _ _ _ (hxs x List.mem_cons_self)) hN).imp (fun _ u hu => ?_) fun _ _ h => h
    rw [List.map_cons, Cells.fill_cons]
    exact ih hu fun y hy => hxs y (List.mem_cons_of_mem _ hy)

theorem ends_losses {o : Ref} {k : Int} {xs : List Ref} {n : Ref → Int}
    (h : c.Aimed D K r N G (retold (fun _ _ => G) o back.name F) s)
    (ho : K o t.rootTable k) (hxs : ∀ x ∈ xs, K x m.rootTable (n x)) (hnodup : xs.Nodup)
    (hj : ∀ x ∈ xs, G m.rootTable column (n x) = .int k) :
    Ends (xs.forM (lose c o back)) s (fun _ u =>
      c.Aimed D K r N (G.fill m.rootTable column (xs.map n) .null)
        (retold (fun _ _ => G.fill m.rootTable column (xs.map n) .null) o back.name F) u) E := by
  induction xs generalizing G s with
  | nil =>
    rw [List.map_nil, Cells.fill_nil]
    exact h
  | cons x xs ih =>
    rw [List.nodup_cons] at hnodup
    change Ends (lose c o back x >>= fun _ => xs.forM (lose c o back)) s _ _
    rw [ends_bind]
    have hx := h.holds _ _ _ (hxs x List.mem_cons_self)
    refine (ends_lose_many hp hpair hD hpaired h (h.holds _ _ _ ho) hx
      (hj x List.mem_cons_self)).imp (fun _ u hu => ?_) fun _ _ h => h
    rw [List.map_cons, Cells.fill_cons]
    refine ih hu (fun y hy => hxs y (List.mem_cons_of_mem _ hy)) hnodup.2 fun y hy => ?_
    rw [Cells.put_of_ne]
    · exact hj y (List.mem_cons_of_mem _ hy)
    · rintro ⟨-, -, heq⟩
      have hy' := h.holds _ _ _ (hxs y (List.mem_cons_of_mem _ hy))
      exact hnodup.1 (h.toDrafts.eq_of_holds (heq ▸ hy') hx ▸ hy)

/-- Putting into a list the records that it is given, and taking those out that it no longer has,
gathers the rows of the given ones. The records are known by the numbers of an earlier session,
which knew both those that the list had and those that it is given. -/
theorem ends_exchange {u : Session} (hs : c.Drafts D u) {o : Ref} {k : Int} {now rs : List Ref}
    {js : List Int} (hnow : u.Lists m.rootTable k (G m.rootTable column) now)
    (hgiven : u.Lists m.rootTable k (G.gather m.rootTable column k js m.rootTable column) rs)
    (h : c.Aimed D u.Holds r N G
      (retold (fun _ _ => G) o back.name (G.gather m.rootTable column k js)) s)
    (ho : u.Holds o t.rootTable k) (hN : ∀ y, y ≠ o → N y back.name) :
    Ends ((rs.filter fun x => !now.contains x).forM (gain c o back) >>= fun _ =>
      (now.eraseDups.filter fun x => !rs.contains x).forM (lose c o back)) s (fun _ v =>
        c.Aimed D u.Holds r N (G.gather m.rootTable column k js)
          (fun _ _ => G.gather m.rootTable column k js) v) E := by
  obtain ⟨n, hn⟩ : ∃ n : Ref → Int, ∀ x, (∃ j, u.Holds x m.rootTable j) →
      u.Holds x m.rootTable (n x) := by
    choose! n hn using fun x (h : ∃ j, u.Holds x m.rootTable j) => h
    exact ⟨n, hn⟩
  have hnum : ∀ {x j}, u.Holds x m.rootTable j → n x = j := fun hx =>
    hs.number_eq (hn _ ⟨_, hx⟩) hx
  have hin : ∀ {x}, x ∈ rs → u.Holds x m.rootTable (n x) := fun hx =>
    hn _ ((hgiven.sound _ hx).imp fun _ h => h.1)
  have hout : ∀ {x}, x ∈ now → u.Holds x m.rootTable (n x) := fun hx =>
    hn _ ((hnow.sound _ hx).imp fun _ h => h.1)
  have hrs : ∀ {x j}, u.Holds x m.rootTable j → (x ∈ rs ↔ j ∈ js) := fun hx =>
    (hs.mem_lists_iff hgiven hx).trans (G.gather_eq_int_iff _ _ _)
  have hold : ∀ {x j}, u.Holds x m.rootTable j → (x ∈ now ↔ G m.rootTable column j = .int k) :=
    fun hx => hs.mem_lists_iff hnow hx
  rw [ends_bind]
  refine (ends_gains (n := n) (k := k) hp hpair hD hpaired h ho
    (fun x hx => hin (List.mem_filter.1 hx).1) hN).imp (fun _ v hv => ?_) fun _ _ h => h
  refine (ends_losses (n := n) (k := k) hp hpair hD hpaired hv ho
    (fun x hx => hout (List.mem_eraseDups.1 (List.mem_filter.1 hx).1))
    ((nodup_eraseDups now).filter _) fun x hx => ?_).imp (fun _ w hw => ?_) fun _ _ h => h
  · have hx := List.mem_eraseDups.1 (List.mem_filter.1 hx).1
    rw [Cells.fill_apply]
    split
    · rfl
    · exact (hold (hout hx)).1 hx
  · rw [G.fill_fill_eq_gather m.rootTable column js] at hw
    · rwa [retold_const] at hw
    · intro j
      simp only [List.mem_map, List.mem_filter, Bool.not_eq_true', List.contains_eq_mem,
        decide_eq_false_iff_not]
      constructor
      · rintro ⟨x, ⟨hx, hno⟩, rfl⟩
        exact ⟨(hrs (hin hx)).1 hx, mt (hold (hin hx)).2 hno⟩
      · rintro ⟨hj, hG⟩
        obtain ⟨x, hx, hxj⟩ := hgiven.complete j ((G.gather_eq_int_iff _ _ _).2 hj)
        exact ⟨x, ⟨hx, mt (hold hxj).1 hG⟩, hnum hxj⟩
    · intro j
      simp only [List.mem_map, List.mem_filter, List.mem_eraseDups, Bool.not_eq_true',
        List.contains_eq_mem, decide_eq_false_iff_not]
      constructor
      · rintro ⟨x, ⟨hx, hno⟩, rfl⟩
        exact ⟨mt (hrs (hout hx)).2 hno, (hold (hout hx)).1 hx⟩
      · rintro ⟨hj, hG⟩
        obtain ⟨x, hx, hxj⟩ := hnow.complete j hG
        exact ⟨x, ⟨hx, mt (hrs hxj).1 hj⟩, hnum hxj⟩

/-- Giving a list other records gathers their rows. -/
theorem ends_setMany {k : Int} {rs : List Ref} {js : List Int}
    (h : c.Aimed D K r N G (fun _ _ => G) s) (hr : s.Holds r t.rootTable k)
    (hrs : List.Forall₂ (fun x j => s.Holds x m.rootTable j) rs js)
    (hN : ∀ y, y ≠ r → N y back.name) : Ends (setMany c r back rs) s (fun _ u =>
      c.Aimed D K r (fun y n => N y n ∧ ¬(y = r ∧ n = back.name))
        (G.gather m.rootTable column k js) (fun _ _ => G.gather m.rootTable column k js) u) E := by
  obtain ⟨e₀, he₀, href₀, hmodel₀, hkey₀, hst₀⟩ :=
    h.toDrafts.entry_of_holds hp hpair.backAlone hpair.backMem hr
  have hhas : c.Has r back := by
    refine ⟨t, ?_, hpair.backLink⟩
    rw [← href₀, (h.draft e₀ he₀).model?_eq hp, hmodel₀]
  have hknown : s.known? r ≠ none := by
    rw [← href₀, h.toDrafts.known?_eq he₀]
    simp
  unfold setMany
  refine Reads.ends_bind (reads_readLink (Aimed.reading hp hD hpaired) hp hD hhas) h.counting ?_
    fun f u _ hno => absurd hno hknown
  rintro st u hu - ⟨e, he, hl, hst, before, now, rfl⟩
  obtain ⟨hmem, href⟩ := Session.known?_mem he
  have hs := hu.toDrafts
  obtain ⟨e', he', href', hmodel, hkey, -⟩ :=
    hs.entry_of_holds hp hpair.backAlone hpair.backMem (hu.holds _ _ _ hr)
  obtain rfl := Session.eq_of_ref_eq hs.distinct he' hmem (href'.trans href.symm)
  have htells := hu.tells e' hmem back hl
  rw [hst] at htells
  have hcounts := htells.many column m k hpair.backKind hpair.backTarget hkey
  have hmisses := htells.misses href column m k hpair.backKind hpair.backTarget hkey
  obtain ⟨b, rfl, hbefore⟩ := hcounts.before before now rfl
  replace hrs := hrs.imp fun x j hx => hu.holds x _ j hx
  have hgiven : u.Lists m.rootTable k (G.gather m.rootTable column k js m.rootTable column) rs := by
    refine ⟨fun x hx => ?_, fun j hj => ?_⟩
    · obtain ⟨j, hj, hx⟩ := exists_of_forall₂_left hrs hx
      exact ⟨j, hx, (G.gather_eq_int_iff _ _ _).2 hj⟩
    · exact exists_of_forall₂_right hrs ((G.gather_eq_int_iff _ _ _).1 hj)
  have hset := (hu.counting.fewer (M := fun y n => N y n ∧ ¬(y = r ∧ n = back.name))
    fun _ _ h => h.1).setLink hp hmem hl (hpair.tells_back hkey (hs.counts_given hbefore hgiven)
      fun _ => hs.misses_given hbefore hgiven) fun _ h => absurd ⟨href, rfl⟩ h.2
  rw [href] at hset
  dsimp only [LinkState.current]
  rw [ends_bind, ends_modifyEntry]
  exact (ends_exchange hp hpair hD hpaired hs (hs.lists_now hcounts hmisses) hgiven hset
    (hu.holds _ _ _ hr) fun y hy => ⟨hN y hy, fun h => hy h.1⟩).imp
      (fun _ _ hv => h.counted (hu.counted hv)) fun _ _ h => h

end Act

end Hypermedia
