import Hypermedia.Proofs.Api.Handlers
import Hypermedia.Proofs.Graph.Guarding
import Hypermedia.Proofs.Session.Refusing

/-!
# Removing

If removing is answered with nothing then the record that the scope leads to was one that the
rules allow to remove, and just this one is gone (`Service.Removes`); with any other answer the
database is the one from before (`Act.ends_remove_of`). A record that is bound is not removed:
that is a conflict (`Act.ends_remove_bound`).
-/

namespace Hypermedia

namespace Service

/-- In a state of the database, a scope with ids for its parameters leads to the record of the row
under a number in the table of a model. The record's own type is `t`. -/
def LeadsTo (s : Service) (c : Catalog) (D : Database) (scope : Scope) (params : Scope.Params)
    (t : ResourceType) (m : Model) (k : Int) (row : Row) : Prop :=
  ∃ e u, (scope.entity (s.graph c.store) params).exec (.start D) = (.ok e, u) ∧
    c.Known D u e.record m k row ∧ s.registry.typeOf? m.recordClass = some t

/-- A scope leads to a record that the rules allow to remove, and the session has committed the
database without it. -/
def Removes (s : Service) (c : Catalog) (D : Database) (scope : Scope) (params : Scope.Params)
    (u : Session) : Prop :=
  ∃ t m k row, s.LeadsTo c D scope params t m k row ∧
    c.Allows s.registry s.rules .destroy m.rootTable row ∧ c.Loses m.rootTable k D u.committed

end Service

/-- Two records under one reference are one. -/
theorem Catalog.Known.unique {c : Catalog} {D : Database} {s : Session} {r : Ref} {m n : Model}
    {j k : Int} {row row' : Row} (h : c.Known D s r m k row) (hp : c.Plain) (hs : c.Drafts D s)
    (h' : c.Known D s r n j row') : m = n ∧ k = j ∧ row = row' := by
  obtain rfl := h.model_eq hp h'.mem h'.name
  obtain ⟨e, he, href, -, -, hkey⟩ := h.holds
  obtain ⟨e', he', href', -, -, hkey'⟩ := h'.holds
  obtain rfl := Session.eq_of_ref_eq hs.distinct he he' (href.trans href'.symm)
  obtain rfl : k = j := by simpa [hkey] using hkey'
  exact ⟨rfl, rfl, Option.some.inj (h.row.symm.trans h'.row)⟩

namespace Act

open Service

variable {s : Service} {c : Catalog} {D : Database}

section

variable (hp : c.Plain) (hD : c.Sound D) (hx : c.Exposed s.registry s.rules) {scope : Scope}
  (hscope : scope.Formed s.registry) (x : Match)

include hp hD hx hscope

/-- Removing deletes just the record that the scope leads to, or keeps the database. -/
theorem ends_remove_of {Q : Response → Session → Prop}
    (hkept : ∀ r u, r.status ≠ 204 → u.committed = D → Q r u)
    (hgone : ∀ u, s.Removes c D scope x.params u → Q (Negotiation.empty 204 []) u) :
    Ends (s.remove c.store scope x) (.start D) Q fun _ u => u.committed = D := by
  have hI := (Catalog.Edited.reading (H := fun _ => False) hp hD).and (Catalog.Quiet.reading hp hD)
  have hg := hI.keepsGraph hp hD s.registry s.rules
  unfold remove
  refine (keeps_format x.suffix).ends_bind (I := fun u => u = .start D) rfl ?_
    fun _ _ h => h ▸ rfl
  rintro format u rfl hformat
  rw [ends_bind]
  refine ((ends_exec _ _).and (reads_scopeEntity hI (fun _ h => h.2) hp hD hx hscope x.params
    ⟨Catalog.edited_start D, Catalog.quiet_start D⟩)).imp (fun e u he => ?_)
      fun _ _ h => h.2.1.1.committed
  obtain ⟨hexec, hu, -, ⟨m, k, row, htyped⟩, -⟩ := he
  obtain ⟨-, hpresents⟩ := hx.presents_of_typeOf htyped.mem htyped.type
  obtain ⟨y, hy, -, hymodel, -, hcell⟩ := hu.2.known? hp htyped.toKnown
  refine (reads_valid_method hI hp hD hy (fun v hv => ?_) (y := .destroy) (by decide)).ends_bind hu
    (fun isValid v hv huv hpass => ?_) fun _ _ h _ => h.1.committed
  · obtain ⟨-, rule, column, hrule, hcolumn, -⟩ := hpresents.rule v hv
    exact ⟨rule, column, hrule, hymodel ▸ hcolumn⟩
  cases isValid with
  | false =>
    rw [if_neg (by simp)]
    refine (hg.entity (s.writer x.suffix) e .destroy false).ends_bind hv (fun body w hw _ => ?_)
      fun _ _ h => h.1.committed
    exact (keeps_reply_status (I := fun u => u.committed = D) hformat body 200 [] w
      hw.1.committed).imp (fun r u h => hkept r u (by rw [h.2]; decide) h.1) fun _ _ h => h
  | true =>
    rw [if_pos rfl, ends_bind]
    refine (ends_destroy hp hD hv.2 hv.1 e.record).imp (fun isGone w hw => ?_) fun _ _ h => h
    cases isGone with
    | false => exact hkept _ _ (by decide) hw
    | true =>
      obtain ⟨root, j, ⟨z, hz, hzref, -, hzroot, hzkey⟩, hloses⟩ := hw
      -- The row that is gone is that of the entity.
      have hknown := htyped.toKnown.mono huv
      obtain ⟨z', hz', hzref', -, hzroot', hzkey'⟩ := hknown.holds
      obtain rfl := Session.eq_of_ref_eq hv.1.distinct hz hz' (hzref.trans hzref'.symm)
      obtain rfl := hzroot.symm.trans hzroot'
      obtain rfl : j = k := by simpa [hzkey] using hzkey'
      exact hgone w ⟨e.type, m, j, row, ⟨e, u, hexec, htyped.toKnown, htyped.type⟩,
        ⟨m, e.type, hknown.rowHasType hp hv.1.toDrafts htyped.type, funext hcell ▸ hpass rfl⟩,
        hloses⟩

/-- A record to which a column that must not be empty refers is not removed. -/
theorem ends_remove_bound {t : ResourceType} {m : Model} {k : Int} {row : Row}
    (hleads : s.LeadsTo c D scope x.params t m k row)
    (hpass : t.Passes s.rules .destroy (Row.get row)) (hflat : c.isFlat m = true)
    (hbinds : c.Binds D m.rootTable k) {format : Value}
    (hformat : Negotiation.choose s.settings x.suffix = .ok format) :
    Ends (s.remove c.store scope x) (.start D) (fun r _ => r.status = 409) fun _ _ => False := by
  have hI := (Catalog.Edited.reading (H := fun _ => False) hp hD).and (Catalog.Quiet.reading hp hD)
  obtain ⟨e, u, hexec, hknown, htype⟩ := hleads
  unfold remove Service.format
  rw [hformat, monadOfExcept_eq, ofExcept_ok, pure_bind, ends_bind]
  refine ((ends_exec _ _).and (reads_scopeEntity hI (fun _ h => h.2) hp hD hx hscope x.params
    ⟨Catalog.edited_start D, Catalog.quiet_start D⟩)).imp (fun e' u' he => ?_) fun f u' he => ?_
  · obtain ⟨hexec', hu, -, ⟨m', k', row', htyped⟩, -⟩ := he
    obtain ⟨he, rfl⟩ := Prod.mk.inj (hexec'.symm.trans hexec)
    obtain rfl := Except.ok.inj he
    obtain ⟨rfl, rfl, rfl⟩ := htyped.toKnown.unique hp hu.1.toDrafts hknown
    obtain rfl := Option.some.inj (htyped.type.symm.trans htype)
    have hvalid : Reads (fun u => c.Edited D (fun _ => False) u ∧ c.Quiet D u)
        (e'.valid (s.graph c.store) [.destroy]) u' (fun _ b => b = true) False :=
      (reads_errors hI (fun _ h => h.2) hp hD hx htyped hpass).bind fun es _ _ _ hes =>
        reads_ite (fun _ => reads_pure fun _ => rfl) fun hno => absurd (by simp [hes]) hno
    refine hvalid.ends_bind hu (fun b v hv huv hb => ?_) fun _ _ _ h => h
    rw [if_pos hb, ends_bind]
    refine (ends_destroy_bound hp hD hv.2 hv.1 (hknown.mono huv).holds
      (hknown.name ▸ hp.model?_eq hknown.mem) hflat hbinds).imp (fun b _ hb => ?_) fun _ _ h => h
    rw [hb.1]
    rfl
  · have hexec' := he.1.symm.trans hexec
    cases congrArg Prod.fst hexec'

end

/-- Removing deletes a record and answers with nothing, or keeps the database. -/
theorem ends_remove (hD : c.Sound D) (h : s.Serves c) {scope : Scope}
    (hscope : scope.Formed s.registry) (x : Match) :
    Ends (s.remove c.store scope x) (.start D) (s.Settles c D) fun _ u => u.committed = D := by
  refine ends_remove_of h.plain hD h.exposed hscope x (fun r _ _ h => .of_kept hD h r)
    fun u hu => ?_
  obtain ⟨_, _, _, _, -, -, hloses⟩ := hu
  exact ⟨hloses.sound, hloses.fades.retains,
    Or.inr ⟨by decide, Negotiation.not_isErrorText_empty⟩⟩

end Act

end Hypermedia
