import Hypermedia.Graph.Representation
import Hypermedia.Proofs.Session.Act
import Hypermedia.Proofs.Validation.Merging
import Hypermedia.Route.Scope

/-!
# Graphs whose reading keeps a property

If every operation of a storage keeps a property of sessions, and so does judging, then
everything that is read of its entities keeps it: their errors, their addresses and their
representations, and what the addresses of scopes mean (`Act.KeepsGraph`).
-/

namespace Hypermedia

namespace Act

/-- Everything that a graph reads keeps a property of sessions. -/
structure KeepsGraph (I : Session → Prop) (g : ResourceGraph Act Ref) : Prop where
  query : ∀ t, Keeps I (g.storage.query t) fun _ => True
  get : ∀ t id, Keeps I (g.storage.get t id) fun _ => True
  identity : ∀ r, Keeps I (g.storage.identity r) fun _ => True
  value : ∀ r name, Keeps I (g.storage.value r name) fun _ => True
  related : ∀ r rel, Keeps I (g.storage.related r rel) fun _ => True
  source : ∀ r name, Keeps I (g.storage.source r name) fun _ => True
  judge : ∀ name e, Keeps I (g.judge name e) fun _ => True

variable {α : Type} {I : Session → Prop} {g : ResourceGraph Act Ref}

theorem keeps_monadOfExcept (x : Except Fault α) :
    Keeps I (MonadExcept.ofExcept x : Act α) fun _ => True := by
  rw [monadOfExcept_eq]
  exact keeps_ofExcept fun _ _ => trivial

/-- A rule of a book is judged by reading one value. -/
theorem keeps_judge {s : Storage Act Ref} (h : ∀ r name, Keeps I (s.value r name) fun _ => True)
    (book : RuleBook) (name : String) (e : Entity Ref) :
    Keeps I (book.judge s name e) fun _ => True :=
  (keeps_monadOfExcept _).bind fun rule _ => (h e.record rule.field).bind fun _ _ =>
    keeps_monadOfExcept _

namespace KeepsGraph

variable (h : KeepsGraph I g)

include h

/-! ## Entities and collections -/

theorem lookup (t : ResourceType) (id : Value) : Keeps I (g.lookup t id) fun _ => True :=
  (h.get t id).bind fun _ _ => keeps_pure trivial

theorem collection (t : ResourceType) : Keeps I (g.collection t) fun _ => True :=
  (h.query t).bind fun _ _ => keeps_pure trivial

theorem relatedMany (e : Entity Ref) (rel : Relationship) :
    Keeps I (g.relatedMany e rel) fun _ => True :=
  (keeps_monadOfExcept _).bind fun _ _ => (h.related e.record rel).bind fun _ _ =>
    (keeps_monadOfExcept _).bind fun _ _ => keeps_pure trivial

theorem relatedOne (e : Entity Ref) (rel : Relationship) :
    Keeps I (g.relatedOne e rel) fun _ => True :=
  (keeps_monadOfExcept _).bind fun _ _ => (h.related e.record rel).bind fun _ _ =>
    (keeps_monadOfExcept _).bind fun _ _ => keeps_pure trivial

theorem accepts (filter : Option Condition) (r : Ref) :
    Keeps I (FinderRule.accepts g.storage filter r) fun _ => True := by
  cases filter with
  | none => exact keeps_pure trivial
  | some c => exact (h.value r c.field).bind fun _ _ => keeps_monadOfExcept _

theorem find (rule : FinderRule) (r : Ref) :
    Keeps I (rule.find g.storage r) fun _ => True := by
  cases rule with
  | plain => exact keeps_throw _
  | select source filter isReversed =>
    have hfilter : ∀ rs : List Ref, Keeps I (do
        let rs ← rs.filterM (FinderRule.accepts g.storage filter)
        pure (if isReversed then rs.reverse else rs)) fun _ => True := fun rs =>
      (keeps_filterM fun r _ => h.accepts filter r).bind fun _ _ => keeps_pure trivial
    cases source with
    | none => exact hfilter [r]
    | some name => exact (h.source r name).bind fun rs _ => hfilter rs

theorem found (e : Entity Ref) (f : Finder) : Keeps I (g.found e f) fun _ => True :=
  (keeps_monadOfExcept _).bind fun _ _ => (h.find f.rule e.record).bind fun _ _ =>
    keeps_pure trivial

theorem idText (e : Entity Ref) : Keeps I (e.idText g) fun _ => True :=
  (h.identity e.record).bind fun _ _ => keeps_pure trivial

theorem entityUri (e : Entity Ref) (root : String) (ext : Option String) :
    Keeps I (e.uri g root ext) fun _ => True :=
  (h.idText e).bind fun _ _ => keeps_pure trivial

theorem valueIsNull (r : Ref) (name : String) : Keeps I (do
    let v ← g.storage.value r name
    pure v.isNull) fun _ => True :=
  (h.value r name).bind fun _ _ => keeps_pure trivial

theorem relatedIsNothing (r : Ref) (rel : Relationship) : Keeps I (do
    let x ← g.storage.related r rel
    pure x.isNothing) fun _ => True :=
  (h.related r rel).bind fun _ _ => keeps_pure trivial

theorem blanks (e : Entity Ref) : Keeps I (e.blanks g) fun _ => True :=
  (keeps_filterM fun p _ => h.valueIsNull e.record p.name).bind fun _ _ =>
    (keeps_filterM fun rel _ => h.relatedIsNothing e.record rel).bind fun _ _ => keeps_pure trivial

theorem verdicts (e : Entity Ref) (c : Context) : Keeps I (e.verdicts g c) fun _ => True :=
  (keeps_mapM (Q := fun _ => True) fun v _ => (h.judge v.rule e).bind fun _ _ =>
    keeps_monadOfExcept _).true

theorem errors (e : Entity Ref) (c : Context) : Keeps I (e.errors g c) fun _ => True := by
  have hrest : ∀ own : List Errors, Keeps I (do
      let ruled ← e.verdicts g c
      pure (Errors.merge (own ++ ruled))) fun _ => True := fun own =>
    (h.verdicts e c).bind fun _ _ => keeps_pure trivial
  refine keeps_ite (fun _ => ?_) fun _ => hrest []
  exact ((h.blanks e).bind (Q := fun _ => True) fun _ _ => keeps_pure trivial).bind
    fun own _ => hrest own

theorem validIn (e : Entity Ref) (cs : List Context) : Keeps I (e.validIn g cs) fun _ => True := by
  induction cs with
  | nil => exact keeps_pure trivial
  | cons c cs ih =>
    exact (h.errors e c).bind fun _ _ => keeps_ite (fun _ => ih) fun _ => keeps_pure trivial

theorem valid (e : Entity Ref) (cs : List Context) : Keeps I (e.valid g cs) fun _ => True :=
  h.validIn e _

theorem errors_default (e : Entity Ref) :
    Keeps I (e.errors g .default) fun es => es = [] → e.payloadErrors = [] := by
  refine Keeps.bind (P := fun own => e.payloadErrors ∈ own) ?_ fun own hown =>
    (h.verdicts e .default).bind fun ruled _ => keeps_pure fun hnil => ?_
  · exact (h.blanks e).bind fun _ _ => keeps_pure (by simp)
  · exact Errors.merge_eq_nil.1 hnil _ (List.mem_append_left _ hown)

theorem collectionUri (c : Collection Ref) (root : String) (ext : Option String) :
    Keeps I (c.uri g root ext) fun _ => True := by
  unfold Collection.uri
  split
  · exact keeps_pure trivial
  · exact (h.entityUri _ root none).bind fun _ _ => keeps_pure trivial

theorem collectionGet (c : Collection Ref) (id : Value) :
    Keeps I (c.get g id) fun o => ∀ e, o = some e → e ∈ c.entities := by
  unfold Collection.get
  induction c.entities with
  | nil => exact keeps_pure (by simp)
  | cons e es ih =>
    refine (h.idText e).bind fun _ _ => keeps_ite (fun _ => keeps_pure ?_) fun _ => ?_
    · simp
    · exact ih.imp fun o ho e' he' => List.mem_cons_of_mem _ (ho e' he')

/-! ## Scopes -/

theorem member (params : Scope.Params) (p : String) (c : Collection Ref) :
    Keeps I (Scope.member g params p c) fun e => e ∈ c.entities := by
  refine (keeps_monadOfExcept _).bind fun id _ => (h.collectionGet c id).bind fun o ho => ?_
  cases o with
  | none => exact keeps_throw _
  | some e => exact keeps_pure (ho e rfl)

theorem scopeEntity (params : Scope.Params) (sc : Scope) :
    Keeps I (sc.entity g params) fun _ => True := by
  have hrequired : ∀ o : Option (Entity Ref), Keeps I (Scope.required o) fun _ => True := by
    intro o
    cases o with
    | none => exact keeps_throw _
    | some e => exact keeps_pure trivial
  induction sc with
  | type t p =>
    exact (keeps_monadOfExcept _).bind fun id _ => (h.lookup t id).bind fun o _ => hrequired o
  | relationship _ p _ _ rel ih =>
    exact ih.bind fun owner _ => (h.relatedMany owner rel).bind fun c _ =>
      (h.member params p c).true
  | finder _ p _ f ih =>
    exact ih.bind fun owner _ => (h.found owner f).bind fun c _ => (h.member params p c).true
  | singular _ _ _ rel ih =>
    exact ih.bind fun owner _ => (h.relatedOne owner rel).bind fun o _ => hrequired o

theorem scopeCollection (params : Scope.Params) (sc : Scope) :
    Keeps I (sc.collection g params) fun _ => True := by
  cases sc with
  | type t p => exact h.collection t
  | relationship _ _ _ parent rel =>
    exact (h.scopeEntity params parent).bind fun owner _ => h.relatedMany owner rel
  | finder _ _ parent f => exact (h.scopeEntity params parent).bind fun owner _ => h.found owner f
  | singular => exact keeps_throw _

/-! ## Representations -/

section

variable (w : Renderer)

theorem entityLink (e : Entity Ref) : Keeps I (w.entityLink g e) fun _ => True :=
  (h.entityUri e w.root w.ext).bind fun _ _ => keeps_pure trivial

theorem collectionLink (c : Collection Ref) : Keeps I (w.collectionLink g c) fun _ => True :=
  (h.collectionUri c w.root w.ext).bind fun _ _ => keeps_pure trivial

theorem listing {member : Entity Ref → Act Representation}
    (hm : ∀ e, Keeps I (member e) fun _ => True) (c : Collection Ref) :
    Keeps I (w.listing g member c) fun _ => True :=
  (keeps_mapM fun e _ => hm e).bind fun _ _ => (h.collectionUri c w.root w.ext).bind fun _ _ =>
    keeps_pure trivial

theorem full {one : Entity Ref → Act Representation} {many : Collection Ref → Act Representation}
    (h1 : ∀ e, Keeps I (one e) fun _ => True) (hn : ∀ c, Keeps I (many c) fun _ => True)
    (e : Entity Ref) : Keeps I (w.full g one many e) fun _ => True := by
  refine (h.entityUri e w.root w.ext).bind fun _ _ => ?_
  refine (keeps_mapM (Q := fun _ => True) fun p _ => (h.value e.record p.name).bind fun _ _ =>
    keeps_pure trivial).bind fun _ _ => ?_
  refine (keeps_mapM (Q := fun _ => True) fun rel _ => keeps_ite (fun _ => ?_) fun _ => ?_).bind
    fun _ _ => ?_
  · exact (h.relatedMany e rel).bind fun c _ => (hn c).bind fun _ _ => keeps_pure trivial
  · refine (h.relatedOne e rel).bind fun o _ => ?_
    cases o with
    | none => exact keeps_pure trivial
    | some other => exact (h1 other).bind fun _ _ => keeps_pure trivial
  refine (keeps_mapM (Q := fun _ => True) fun f _ => (h.found e f).bind fun c _ =>
    (hn c).bind fun _ _ => keeps_pure trivial).bind fun _ _ => keeps_pure trivial

theorem gateErrors (e : Entity Ref) (c : Context) :
    Keeps I (Renderer.gateErrors g e c) fun _ => True :=
  (h.errors e .default).bind fun _ _ => keeps_ite (fun _ => keeps_pure trivial) fun _ =>
    (h.errors e c).bind fun _ _ => keeps_pure trivial

theorem gated {one : Entity Ref → Act Representation} {many : Collection Ref → Act Representation}
    (h1 : ∀ e, Keeps I (one e) fun _ => True) (hn : ∀ c, Keeps I (many c) fun _ => True)
    (e : Entity Ref) (c : Context) : Keeps I (w.gated g one many e c) fun _ => True :=
  (h.gateErrors e c).bind fun _ _ => keeps_ite (fun _ => h.full w h1 hn e) fun _ =>
    keeps_pure trivial

theorem linked (e : Entity Ref) (c : Context) : Keeps I (w.linked g e c) fun _ => True :=
  h.gated w (h.entityLink w) (h.collectionLink w) e c

theorem embedded (e : Entity Ref) (c : Context) : Keeps I (w.embedded g e c) fun _ => True :=
  h.gated w (fun other => h.linked w other .default)
    (h.listing w fun member => h.linked w member .default) e c

theorem entity (e : Entity Ref) (c : Context) (embed : Bool) :
    Keeps I (w.entity g e c embed) fun _ => True :=
  keeps_ite (fun _ => h.embedded w e c) fun _ => h.linked w e c

theorem representation (c : Collection Ref) (embed : Bool) :
    Keeps I (w.collection g c embed) fun _ => True :=
  keeps_ite (fun _ => h.listing w (fun member => h.linked w member .default) c)
    fun _ => h.listing w (h.entityLink w) c

end

end KeepsGraph

end Act

end Hypermedia
