import Hypermedia.Api.Site
import Hypermedia.Proofs.Api.Places
import Hypermedia.Proofs.Api.Removing

/-!
# What requests leave

A request that only reads, and one whose answer tells of a fault or of errors, leaves the
database as it was, and every request leaves it sound (`Site.respond_settles`). So it
is sound in every state that requests lead to from the empty database (`Site.sound_reached`),
and sealed columns have their default in all of them (`Site.has_reached`).

A request that does not delete leaves all rows, and changes only references and what its payload
gives to the entity that it puts (`Site.respond_frames`).
-/

namespace Hypermedia

namespace Service

/-- How a request with a method may leave the database: as the method may, reading keeps it, and
without deleting only references change and what `A` says. -/
structure Leaves (s : Service) (c : Catalog) (D : Database) (A : String → Int → String → Prop)
    (method : Method) (r : Response) (t : Session) : Prop extends s.Settles c D r t where
  read : method = .get → t.committed = D
  frames : method ≠ .delete → c.Frames A D t.committed

theorem Leaves.of_kept {s : Service} {c : Catalog} {D : Database} (hD : c.Sound D)
    {A : String → Int → String → Prop} {method : Method} {t : Session} (h : t.committed = D)
    (r : Response) : s.Leaves c D A method r t :=
  ⟨.of_kept hD h r, fun _ => h, fun _ => h ▸ .refl c A t.committed⟩

/-- What a request may change that a place reads: what its payload gives to the entity of the
route. -/
def MayChangeAt (s : Service) (c : Catalog) (D : Database) (request : Request)
    (p : Place Endpoint) (y : Match) (table : String) (k : Int) (column : String) : Prop :=
  methodOf request.method = .put ∧ ∃ x scope, p.target = .route x ∧ x.scope = some scope ∧
    s.MayChange c D scope request y table k column

/-- What a request may change in the records that are there, apart from references. -/
def MayPut (s : Service) (c : Catalog) (D : Database) (request : Request) (table : String)
    (k : Int) (column : String) : Prop :=
  ∃ p y, chosen? (Place.candidates s.places request.path) request = some (p, y) ∧
    s.MayChangeAt c D request p y table k column

/-- What the methods that write do at a place, for a request. -/
inductive Writes (s : Service) (c : Catalog) (request : Request) (p : Place Endpoint) (y : Match) :
    Method → Act Response → Prop
  | create {x : Route} {scope : Scope} : p.target = .route x → x.scope = some scope →
      scope.Formed s.registry → scope.isMutable = true →
        Writes s c request p y .post (s.create c.store scope request y)
  | update {x : Route} {scope : Scope} : p.target = .route x → x.scope = some scope →
      scope.Formed s.registry → Writes s c request p y .put (s.update c.store scope request y)
  | remove {x : Route} {scope : Scope} : p.target = .route x → x.scope = some scope →
      scope.Formed s.registry → Writes s c request p y .delete (s.remove c.store scope y)

end Service

open Service

namespace Act

variable {s : Service} {c : Catalog} {D : Database}

/-! ## What is answered without a method that writes -/

/-- The answer that tells a fault has the status of the fault, or of one that cannot be told. -/
theorem le_status_tell (f : Fault) (suffix : Option String) (headers : List (String × String)) :
    400 ≤ (s.tell f suffix headers).status := by
  unfold Service.tell
  dsimp only
  split
  · next r hr =>
    obtain ⟨body, -, hr⟩ := bind_eq_ok.1 hr
    obtain rfl := Except.ok.inj hr
    cases f <;> simp [Fault.status]
  · exact by decide

theorem status_answerFile (request : Request) :
    (s.answerFile request).status = 200 ∨ 400 ≤ (s.answerFile request).status := by
  unfold answerFile
  dsimp only
  split
  · decide
  split
  · exact Or.inl rfl
  split
  · decide
  · exact Or.inr (by decide : 400 ≤ 405)

/-- A request that no place serves is answered with the options of a file, or with a fault. -/
theorem ends_answer_unserved (hs : s.Exposes) {request : Request}
    (hchosen : chosen? (Place.candidates s.places request.path) request = none) {t : Session} :
    Ends (s.answer c.store request) t (fun r u => u = t ∧ (r.status = 200 ∨ 400 ≤ r.status))
      fun _ _ => False := by
  have hbody : ∀ {u : Session} (r : Response), r.status = 200 ∨ 400 ≤ r.status →
      Ends (pure (if request.isHead then { r with body := "" } else r) : Act Response) u
        (fun r v => v = u ∧ (r.status = 200 ∨ 400 ≤ r.status)) fun _ _ => False := by
    intro u r hr
    split <;> exact ⟨rfl, hr⟩
  unfold answer answerAt
  dsimp only
  rw [hs.refusal, hchosen]
  split
  · exact hbody _ (status_answerFile request)
  dsimp only
  split <;> exact hbody _ (Or.inr (le_status_tell _ _ _))

/-! ## From the methods to all requests -/

section

variable {Q : Response → Session → Prop} {E : Fault → Session → Prop}
  (hkept : ∀ r t, t.committed = D → r.status = 200 ∨ 400 ≤ r.status → Q r t)

include hkept

/-- At a place there is only read, apart from what the methods do that write. -/
theorem ends_atPlace_of (hE : ∀ f t, t.committed = D → E f t) (hp : c.Plain) (hD : c.Sound D)
    (hs : s.Exposes) {p : Place Endpoint} (hplace : p ∈ s.places) {method : Method}
    (hpost : method = .post → .post ∈ p.methods) (request : Request) (y : Match)
    (hwrites : ∀ act, s.Writes c request p y method act → Ends act (.start D) Q E) :
    Ends (s.atPlace c.store p method request y) (.start D) Q E := by
  have hread : ∀ {act : Act Response}, Keeps (c.Drafts D) act (fun r => r.status = 200) →
      Ends act (.start D) Q E := fun hact =>
    (hact _ (Catalog.drafts_start D)).imp (fun r t h => hkept r t h.1.committed (Or.inl h.2))
      fun f t h => hE f t h.committed
  unfold atPlace
  rcases hs.formed hplace with ⟨x, hx, htarget, hmethods⟩ | htarget
  · rw [htarget]
    dsimp only
    unfold atRoute
    cases hscope : x.scope with
    | none =>
      exact hread ((keeps_format _).bind fun _ hformat => keeps_reply_status hformat _ _ _)
    | some scope =>
      obtain ⟨hformed, hmutable⟩ := hx scope hscope
      cases method with
      | get =>
        exact hread (keeps_ite (fun _ => keeps_showCollection hp hD scope y)
          fun _ => keeps_showEntity hp hD scope y)
      | post =>
        exact hwrites _ (.create htarget hscope hformed (hmutable (hmethods ▸ hpost rfl)))
      | put => exact hwrites _ (.update htarget hscope hformed)
      | delete => exact hwrites _ (.remove htarget hscope hformed)
  · rw [htarget]
    exact hread ((keeps_format _).bind fun _ hformat => (keeps_monadOfExcept _).bind fun _ _ =>
      keeps_ite (fun _ => keeps_pure rfl) fun _ => keeps_reply_status hformat _ _ _)

omit hkept in
/-- Only the name of the method for new members means it. -/
theorem eq_post_of_methodOf {name : String} (h : methodOf name = .post) : name = "POST" := by
  unfold methodOf at h
  split at h
  · next hname => exact eq_of_beq hname
  · split at h
    · cases h
    · split at h <;> cases h

/-- Every request is answered, and what its answer leaves is what is left at the place that reads
the address, or nothing was done. A fault is told after what is not committed was discarded. -/
theorem ends_answer_of (hs : s.Exposes) {request : Request}
    (htold : ∀ f t r, E f t → 400 ≤ r.status → Q r t.rollback)
    (hheaders : ∀ r t headers, Q r t → Q { r with headers := r.headers ++ headers } t)
    (hhead : ∀ r t, request.isHead = true → Q r t → Q { r with body := "" } t)
    (hplace : ∀ p y, chosen? (Place.candidates s.places request.path) request = some (p, y) →
      p ∈ s.places → (methodOf request.method = .post → .post ∈ p.methods) →
        Ends (s.atPlace c.store p (methodOf request.method) request y) (.start D) Q E) :
    Ends (s.answer c.store request) (.start D) Q fun _ _ => False := by
  cases hchosen : chosen? (Place.candidates s.places request.path) request with
  | none =>
    exact (ends_answer_unserved hs hchosen).imp (fun r t h => hkept r t (h.1 ▸ rfl) h.2)
      fun _ _ h => h
  | some found =>
    obtain ⟨p, y⟩ := found
    have hanswer : Ends (s.answerAt c.store (Place.candidates s.places request.path) request)
        (.start D) Q fun _ _ => False := by
      have hserved := List.find?_some hchosen
      unfold answerAt
      rw [hs.refusal, hchosen]
      dsimp only
      split
      · exact hkept _ _ rfl (Or.inl rfl)
      · unfold guarded
        rw [ends_tryCatch, ends_bind]
        refine (hplace p y hchosen (Place.mem_candidates.1 (List.mem_of_find?_eq_some hchosen)).1
          fun hpost => ?_).imp (fun r t h => hheaders r t _ h)
            fun f t h => htold f t _ h (le_status_tell _ _ _)
        rw [eq_post_of_methodOf hpost] at hserved
        exact Place.mem_methods_of_contains (y := .post) hserved
    have hbody : ∀ r t, Q r t → Q (if request.isHead then { r with body := "" } else r) t := by
      intro r t h
      split
      · next hyes => exact hhead r t hyes h
      · exact h
    unfold answer
    dsimp only
    split
    · exact hbody _ _ (hkept _ _ rfl (status_answerFile request))
    · rw [ends_bind]
      exact hanswer.imp hbody fun _ _ h => h

end

/-! ## What is left -/

variable (hD : c.Sound D)

include hD

/-- What a method leaves at a place that serves it. -/
theorem ends_atPlace (h : s.Serves c) (hs : s.Exposes) {p : Place Endpoint} (hp : p ∈ s.places)
    {request : Request} (hpost : methodOf request.method = .post → .post ∈ p.methods)
    (y : Match) : Ends (s.atPlace c.store p (methodOf request.method) request y) (.start D)
      (s.Leaves c D (s.MayChangeAt c D request p y) (methodOf request.method))
      fun _ t => t.committed = D := by
  generalize hmethod : methodOf request.method = method at hpost
  refine ends_atPlace_of (fun r _ h _ => .of_kept hD h r) (fun _ _ h => h) h.plain hD hs hp hpost
    request y fun act hact => ?_
  cases hact with
  | create _ _ hformed hmutable =>
    exact (ends_create hD h hformed hmutable request y).imp
      (fun r _ hr => ⟨hr.1, (fun h => nomatch h), fun _ => hr.2.mono fun _ _ _ h => h.elim⟩)
      fun _ _ h => h
  | update htarget hscope hformed =>
    exact (ends_update hD h hformed request y).imp
      (fun r _ hr => ⟨hr.1, (fun h => nomatch h), fun _ => hr.2.mono fun _ _ _ hmay =>
        ⟨hmethod, _, _, htarget, hscope, hmay⟩⟩) fun _ _ h => h
  | remove _ _ hformed =>
    exact (ends_remove hD h hformed y).imp
      (fun r _ hr => ⟨hr, (fun h => nomatch h), fun h => (h rfl).elim⟩) fun _ _ h => h

omit hD in
/-- An answer of which not only the head is wanted is answered in full. -/
theorem answer_eq (store : Store Act Ref) {request : Request} (hhead : request.isHead = false) :
    s.answer store request =
      if (Place.candidates s.places request.path).isEmpty && isFilePath request.path then
        pure (s.answerFile request)
      else s.answerAt store (Place.candidates s.places request.path) request := by
  unfold answer
  simp only [hhead, Bool.false_eq_true, if_false, bind_pure]

omit hD in
/-- A request that a place serves is answered as it is there, or the fault is told. -/
theorem ends_answer_at (hs : s.Exposes) {request : Request} (hhead : request.isHead = false)
    (hoptions : request.method ≠ "OPTIONS") {p : Place Endpoint} {y : Match}
    (hchosen : chosen? (Place.candidates s.places request.path) request = some (p, y))
    {Q : Response → Session → Prop}
    (hplace : Ends (s.atPlace c.store p (methodOf request.method) request y) (.start D)
      (fun r t => ∀ allowed, Q { r with headers := r.headers ++ s.originHeaders allowed } t)
      fun f t => Q (s.tell f y.suffix []) t.rollback) :
    Ends (s.answer c.store request) (.start D) Q fun _ _ => False := by
  have hempty : (Place.candidates s.places request.path).isEmpty = false := by
    rw [List.isEmpty_eq_false_iff]
    exact List.ne_nil_of_mem (List.mem_of_find?_eq_some hchosen)
  rw [answer_eq _ hhead, hempty, Bool.false_and, if_neg Bool.false_ne_true]
  unfold answerAt
  rw [hs.refusal, hchosen]
  dsimp only
  rw [if_neg (by simpa using hoptions), guarded, ends_tryCatch, ends_bind]
  exact hplace.imp (fun _ _ h => h _) fun _ _ h => h

/-- What a request leaves. -/
theorem ends_answer (h : s.Serves c) (hs : s.Exposes) (request : Request) :
    Ends (s.answer c.store request) (.start D)
      (s.Leaves c D (s.MayPut c D request) (methodOf request.method)) fun _ _ => False := by
  refine ends_answer_of (E := fun _ t => t.committed = D) (fun r _ h _ => .of_kept hD h r) hs
    (fun _ t r ht _ => .of_kept hD (show t.rollback.committed = D from ht) r)
    (fun r t _ h => ⟨⟨h.sound, h.retains, ?headers⟩, h.read, h.frames⟩) (fun r t hhead h => ?head)
    fun p y hchosen hp hpost => ?place
  case headers => exact h.kept.imp id fun h => ⟨h.status, h.text⟩
  case head =>
    -- A request for the head alone only reads.
    have hread : methodOf request.method = .get := by
      rw [show request.method = "HEAD" from eq_of_beq hhead]
      rfl
    exact .of_kept hD (h.read hread) _
  case place =>
    exact (ends_atPlace hD h hs hp hpost y).imp (fun r t hr => ⟨hr.toSettles, hr.read,
      fun hno => (hr.frames hno).mono fun _ _ _ hmay => ⟨p, y, hchosen, hmay⟩⟩) fun _ _ h => h

end Act

namespace Site

/-- The site serves the records of its catalog by an exposed service. -/
structure Stands (site : Site) : Prop where
  serves : site.service.Serves site.catalog
  exposes : site.service.Exposes

variable {site : Site} {D : Database}

/-- Where one place alone reads the path, the answer is what is answered there. -/
theorem respond_of_exec {request : Request} {found : Place Endpoint × Match} {r : Response}
    {t : Session} (hfound : Place.readers site.service.places request.path = [found])
    (hhead : request.isHead = false)
    (hexec : (site.service.answerAt site.catalog.store [found] request).exec (.start D) =
      (.ok r, t)) : site.respond D request = (t.committed, r) := by
  have hcandidates : Place.candidates site.service.places request.path = [found] :=
    List.perm_singleton.1 (hfound ▸ Place.candidates_perm site.service.places request.path)
  have hanswer : (site.service.answer site.catalog.store request).exec (.start D) =
      (.ok r, t) := by
    rw [Act.answer_eq _ hhead, hcandidates]
    exact hexec
  unfold Act.exec at hanswer
  rw [respond, hanswer]

/-- The answer to a request, as it can be computed where one place alone reads the path. -/
def answered? (site : Site) (D : Database) (request : Request) : Option Response :=
  match Place.readers site.service.places request.path with
  | [found] =>
    ((site.service.answerAt site.catalog.store [found] request).exec (.start D)).1.toOption
  | _ => none

theorem respond_of_answered? {request : Request} {r : Response} (hhead : request.isHead = false)
    (h : site.answered? D request = some r) : (site.respond D request).2 = r := by
  unfold answered? at h
  split at h
  · next found hfound =>
    rcases hexec : (site.service.answerAt site.catalog.store [found] request).exec (.start D) with
      ⟨o, t⟩
    rw [hexec] at h
    obtain rfl := toOption_eq_some.1 h
    rw [respond_of_exec hfound hhead hexec]
  · cases h

/-- What a request leaves, as it can be computed where one place alone reads the path. -/
def computed? (site : Site) (D : Database) (request : Request) : Option Database :=
  match Place.readers site.service.places request.path with
  | [found] =>
    match (site.service.answerAt site.catalog.store [found] request).exec (.start D) with
    | (.ok _, t) => some t.committed
    | (.error _, _) => none
  | _ => none

theorem respond_of_computed? {request : Request} {D' : Database} (hhead : request.isHead = false)
    (h : site.computed? D request = some D') : (site.respond D request).1 = D' := by
  unfold computed? at h
  split at h
  · next found hfound =>
    split at h
    · next hexec =>
      obtain rfl := Option.some.inj h
      rw [respond_of_exec hfound hhead hexec]
    · cases h
  · cases h

/-- A request is answered as its service answers, and what that commits is stored. -/
theorem respond_of_answer {request : Request} {Q : Response → Session → Prop}
    (h : Act.Ends (site.service.answer site.catalog.store request) (.start D) Q
      fun _ _ => False) :
    ∃ t, t.committed = (site.respond D request).1 ∧ Q (site.respond D request).2 t := by
  obtain ⟨r, t, hexec, hr⟩ := h.exists_ok fun _ _ => id
  unfold Act.exec at hexec
  unfold respond
  rw [hexec]
  exact ⟨t, rfl, hr⟩

/-- A request leaves the database as its method may. -/
theorem respond_leaves (h : site.Stands) (hD : site.catalog.Sound D) (request : Request) :
    ∃ t, t.committed = (site.respond D request).1 ∧
      site.service.Leaves site.catalog D (site.service.MayPut site.catalog D request)
        (Service.methodOf request.method) (site.respond D request).2 t :=
  respond_of_answer (Act.ends_answer hD h.serves h.exposes request)

/-- The database is sound after a request, and the one from before if the request only reads or
if its answer does not accept it. -/
theorem respond_settles (h : site.Stands) (hD : site.catalog.Sound D) (request : Request) :
    site.catalog.Sound (site.respond D request).1 ∧
      ((site.respond D request).1 = D ∨ methodOf request.method ≠ .get ∧
        site.service.Accepts (site.respond D request).2) := by
  obtain ⟨t, ht, hleaves⟩ := respond_leaves h hD request
  refine ⟨ht ▸ hleaves.sound, ?_⟩
  by_cases hread : methodOf request.method = .get
  · exact Or.inl (ht ▸ hleaves.read hread)
  · exact hleaves.kept.imp (ht ▸ ·) fun haccepts => ⟨hread, haccepts⟩

/-- A request that does not delete leaves all rows, and changes only references and what its
payload gives to the entity that it puts. -/
theorem respond_frames (h : site.Stands) (hD : site.catalog.Sound D) {request : Request}
    (hno : methodOf request.method ≠ .delete) :
    site.catalog.Frames (site.service.MayPut site.catalog D request) D
      (site.respond D request).1 := by
  obtain ⟨t, ht, hleaves⟩ := respond_leaves h hD request
  exact ht ▸ hleaves.frames hno

/-- Sealed columns have their default after a request if they had it before. -/
theorem respond_retains (h : site.Stands) (hD : site.catalog.Sound D) (request : Request) :
    site.catalog.Retains site.service.registry D (site.respond D request).1 := by
  obtain ⟨t, ht, hleaves⟩ := respond_leaves h hD request
  exact ht ▸ hleaves.retains

/-- The database is sound after requests one after the other. -/
theorem sound_respondAll (h : site.Stands) (requests : List Request) :
    ∀ {D : Database}, site.catalog.Sound D → site.catalog.Sound (site.respondAll D requests).1 := by
  induction requests with
  | nil => exact fun hD => hD
  | cons request requests ih => exact fun hD => ih (respond_settles h hD request).1

/-- The database before the first request is sound. -/
theorem sound_emptyDatabase (hempty : ∀ t ∈ site.catalog.tables, t.rows = []) :
    site.catalog.Sound site.emptyDatabase :=
  Catalog.sound_tables hempty

/-- The database that requests one after the other make of the one before the first. -/
def reached (site : Site) (requests : List Request) : Database :=
  (site.respondAll site.emptyDatabase requests).1

/-- A sealed column has its default in every row after requests one after the other. -/
theorem has_respondAll (h : site.Stands) {table column text : String}
    (hsealed : site.catalog.Sealed site.service.registry table column text)
    (requests : List Request) : ∀ {D : Database}, site.catalog.Sound D →
      D.Has table column (.text text) →
        (site.respondAll D requests).1.Has table column (.text text) := by
  induction requests with
  | nil => exact fun _ hhas => hhas
  | cons request requests ih =>
    exact fun hD hhas => ih (respond_settles h hD request).1
      (respond_retains h hD request table column text hsealed hhas)

theorem sound_reached (h : site.Stands) (hempty : ∀ t ∈ site.catalog.tables, t.rows = [])
    (requests : List Request) : site.catalog.Sound (site.reached requests) :=
  sound_respondAll h requests (sound_emptyDatabase hempty)

theorem has_reached (h : site.Stands) (hempty : ∀ t ∈ site.catalog.tables, t.rows = [])
    {table column text : String}
    (hsealed : site.catalog.Sealed site.service.registry table column text)
    (requests : List Request) : (site.reached requests).Has table column (.text text) := by
  have hD := sound_emptyDatabase hempty
  refine has_respondAll h hsealed requests hD fun k row hrow => ?_
  obtain ⟨t, ht, hmem, -⟩ := hD.row?_eq_some.1 hrow
  rw [hempty t (Database.table_mem ht).1] at hmem
  cases hmem

end Site

end Hypermedia
