import Hypermedia.Proofs.Graph.Finding
import Hypermedia.Proofs.Route.Meaning

/-!
# Which record an address names

Where clients may write, the last id of an address says which record they write: the number of the
record is what the id means, if it is looked up among all entities of a type, or what the id spells,
if it is that of a member of a collection (`Scope.Names`). In whatever state the database is, the
entity of such an address is that of the record with this number (`Act.reads_scopeNumber`).
-/

namespace Hypermedia

namespace Scope

variable {params : Params} {j k : Int}

/-- The last id of an address names a record of the scope by its number. -/
def Names (params : Params) (k : Int) : Scope → Prop
  | .type _ p => ∃ id, idOf params p = .ok id ∧ id.Means k
  | .relationship _ p _ _ _ | .finder _ p _ _ =>
    ∃ id, idOf params p = .ok id ∧ id.display = toString k
  | .singular _ _ _ _ => False

/-- An address names one number. -/
theorem Names.unique {sc : Scope} (hj : sc.Names params j) (hk : sc.Names params k)
    (hlow : 0 ≤ k) : j = k := by
  cases sc with
  | type t p =>
    obtain ⟨id, hid, hj⟩ := hj
    obtain ⟨id', hid', hk⟩ := hk
    obtain rfl := Except.ok.inj (hid.symm.trans hid')
    exact hj.unique hk
  | singular => exact hj.elim
  | _ =>
    obtain ⟨id, hid, hj⟩ := hj
    obtain ⟨id', hid', hk⟩ := hk
    obtain rfl := Except.ok.inj (hid.symm.trans hid')
    exact eq_of_toString_eq hlow (hj.symm.trans hk)

end Scope

namespace Act

variable {c : Catalog} {D : Database} {I : Session → Prop} {s : Session} {reg : Registry}
  {book : RuleBook} (hI : c.Reading D I) (hq : ∀ s, I s → c.Quiet D s) (hp : c.Plain)
  (hD : c.Sound D) (hx : c.Exposed reg book)

include hI hq hp hD hx

/-- The entity of a scope where clients may write is that of the record with the number that the
address names. -/
theorem reads_scopeNumber {sc : Scope} (hsc : sc.Formed reg) (hmutable : sc.isMutable = true)
    (params : Scope.Params) :
    Reads I (sc.entity (entitiesOf c reg book).graph params) s (fun u e => ∃ n k,
      sc.memberType.model.bind c.ofClass? = some n ∧ sc.Names params k ∧
        u.Holds e.record n.rootTable k) True := by
  cases sc with
  | type t p =>
    obtain ⟨n, hn⟩ := hx.describes hsc
    unfold Scope.entity
    rw [monadOfExcept_eq]
    refine (reads_ofExcept (P := fun _ id => Scope.idOf params p = .ok id) (fun _ h => h)
      fun _ _ => trivial).bind fun id u _ _ hid => ?_
    refine ((reads_lookupEntity hI hp hD hn.model id).imp (fun _ _ _ _ h => h)
      fun _ => trivial).bind ?_
    rintro _ v - - ⟨o, rfl, -, hsome, -⟩
    cases o with
    | none => exact reads_throw fun _ => trivial
    | some r =>
      obtain ⟨k, row, hk, -, hr⟩ := hsome r rfl
      exact reads_pure fun _ => ⟨n, k, hn.model, ⟨id, hid, hk⟩, hr⟩
  | relationship t p _ parent rel =>
    obtain ⟨hformed, hreadable, hmany, ht⟩ := hsc
    have hrel := (List.mem_filter.1 hreadable).1
    refine (reads_scopeEntity hI hq hp hD hx hformed params).bind ?_
    rintro owner u - - ⟨htyped, hbelongs⟩
    obtain ⟨m, j, row, hpresents, hknown⟩ := hx.known_of_belongs hp hformed.memberType_mem
      (Or.inl (List.ne_nil_of_mem hrel)) htyped hbelongs
    refine ((reads_relatedMany hI hq hp hD hx hknown hpresents hrel hmany).imp
      (fun _ _ _ _ h => h) fun _ => trivial).bind ?_
    rintro x v hv - ⟨_, _, l, n, hl, hn, hall⟩
    have hmodel : t.model.bind c.ofClass? = some n := by
      obtain ⟨l', hl', -, -, htarget⟩ := hpresents.relationship rel hrel
      obtain rfl := Option.some.inj (hl.symm.trans hl')
      exact (htarget t ht).trans hn
    have hheld : ∀ e ∈ x.entities, ∃ k, v.Holds e.record n.rootTable k := fun e he => by
      obtain ⟨row', -, k, -, htyped⟩ := exists_of_forall₂_left hall he
      exact ⟨k, htyped.holds⟩
    unfold Scope.member
    rw [monadOfExcept_eq]
    refine (reads_ofExcept (P := fun u id => u = v ∧ Scope.idOf params p = .ok id)
      (fun _ h => ⟨rfl, h⟩) fun _ _ => trivial).bind ?_
    rintro id _ - - ⟨rfl, hid⟩
    refine ((reads_collectionFind hI id.display n.rootTable hheld).imp (fun _ _ _ _ h => h)
      fun _ => trivial).bind ?_
    rintro o w hw - ⟨rfl, hsome, -⟩
    cases o with
    | none => exact reads_throw fun _ => trivial
    | some e =>
      obtain ⟨he, k, hspelled, hnumber⟩ := hsome e rfl
      obtain ⟨k', hk'⟩ := hheld e he
      obtain rfl := ((hI.drafts hw).hasNumber hk').unique hnumber
      exact reads_pure fun _ => ⟨n, k', hmodel, ⟨id, hid, hspelled⟩, hk'⟩
  | finder => simp [Scope.isMutable, Scope.readOnly] at hmutable
  | singular => simp [Scope.isMutable, Scope.readOnly] at hmutable

end Act

end Hypermedia
