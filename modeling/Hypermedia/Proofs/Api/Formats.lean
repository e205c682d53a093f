import Hypermedia.Proofs.Api.Creating

/-!
# Types of content

An address without a suffix asks for the format that the settings name, and an address with the
suffix of a format for that one (`Negotiation.asked`). Whatever a route answers, a representation
of a record or of what is wrong with it, is in the format that is asked for; and so are answers
that tell a fault, except that without a suffix these are documents whatever the settings name
(`Site.isIn_of_respond`).
-/

namespace Hypermedia

theorem Format.name_of_ofName? {s : String} {f : Format} (h : Format.ofName? s = some f) :
    f.name = s := by
  unfold Format.ofName? at h
  split at h
  · next hs =>
    obtain rfl := Option.some.inj h
    exact (eq_of_beq hs).symm
  · split at h
    · next hs =>
      obtain rfl := Option.some.inj h
      exact (eq_of_beq hs).symm
    · cases h

theorem Format.ofName?_name (f : Format) : Format.ofName? f.name = some f := by
  cases f <;> decide

/-- The answer has no content, or its content is of the type of the format. -/
def Response.IsIn (r : Response) (f : Format) : Prop := r.body = "" ∨ r.contentType = f.contentType

namespace Negotiation

variable {settings : Settings} {f : Format} {suffix : Option String}

/-- The format that an address with this suffix asks for, where the settings name a format for
those without one. -/
def asked (f : Format) : Option String → Format
  | none => f
  | some s => (Format.ofName? s).getD .json

/-- There is no suffix, or it is that of a format. -/
def IsSupported (suffix : Option String) : Prop :=
  ∀ s, suffix = some s → (Format.ofName? s).isSome = true

theorem choose_eq_asked (hformat : settings.get "DEFAULT_FORMAT" = .text f.name)
    (hsuffix : IsSupported suffix) :
    choose settings suffix = .ok (.text (asked f suffix).name) := by
  cases suffix with
  | none =>
    have htruthy : (Value.text f.name).truthy = true := by cases f <;> decide
    rw [choose, hformat, if_pos htruthy, asked]
  | some s =>
    obtain ⟨g, hg⟩ := Option.isSome_iff_exists.1 (hsuffix s rfl)
    rw [choose, if_pos (hsuffix s rfl), asked, hg, Option.getD_some, Format.name_of_ofName? hg]

/-- Only without a suffix may a fault be told in another format than the one that is asked for. -/
theorem forFault_eq_asked (h : suffix = none → f = .json) : forFault suffix = asked f suffix := by
  cases suffix with
  | none => exact (h rfl).symm
  | some s => rfl

theorem contentType_of_renderAs {detail : Detail} {v : Value} {status : Nat}
    {headers : List (String × String)} {r : Response}
    (h : renderAs settings detail v (.text f.name) status headers = .ok r) :
    r.contentType = f.contentType := by
  simp only [renderAs, Format.ofName?_name, render] at h
  obtain ⟨body, -, h⟩ := bind_eq_ok.1 h
  rw [← Except.ok.inj h]

end Negotiation

namespace Act

open Service Negotiation

variable {s : Service} {c : Catalog} {f : Format}

theorem keeps_any {α : Type} (x : Act α) : Keeps (fun _ => True) x fun _ => True :=
  fun t _ => (ends_exec x t).imp (fun _ _ _ => ⟨trivial, trivial⟩) fun _ _ _ => trivial

/-- A fault is told in its format, also where this cannot be done. -/
theorem contentType_tell (fault : Fault) (suffix : Option String)
    (headers : List (String × String)) :
    (s.tell fault suffix headers).contentType = (forFault suffix).contentType := by
  unfold Service.tell
  dsimp only
  split
  · next r hr =>
    obtain ⟨body, -, hr⟩ := bind_eq_ok.1 hr
    rw [← Except.ok.inj hr]
  · next hr =>
    -- What tells a fault has a document, so only pages cannot be written.
    cases hformat : forFault suffix with
    | page => rfl
    | json =>
      rw [hformat] at hr
      cases hr

section

variable (hformat : s.settings.get "DEFAULT_FORMAT" = .text f.name) {x : Match}
  (hsuffix : IsSupported x.suffix)

include hformat hsuffix

/-- What is replied after the format was chosen is in this format. -/
theorem keeps_format_bind {k : Value → Act Response}
    (hk : ∀ format, (∀ (y : Representation) (status : Nat) (headers : List (String × String)),
      Keeps (fun _ => True) (s.reply format y status headers : Act Response)
        (Response.IsIn · (asked f x.suffix))) →
      Keeps (fun _ => True) (k format) (Response.IsIn · (asked f x.suffix))) :
    Keeps (fun _ => True) (s.format x.suffix >>= k) (Response.IsIn · (asked f x.suffix)) := by
  refine (keeps_format x.suffix).bind fun format hchosen => hk format fun y status headers => ?_
  rw [choose_eq_asked hformat hsuffix] at hchosen
  obtain rfl := Except.ok.inj hchosen
  rw [reply, monadOfExcept_eq]
  exact keeps_ofExcept fun r hr => .inr (contentType_of_renderAs hr)

/-- What a method answers at a route is in the format that is asked for. -/
theorem keeps_atRoute (route : Route) (method : Method) (request : Request) :
    Keeps (fun _ => True) (s.atRoute c.store route method request x)
      (Response.IsIn · (asked f x.suffix)) := by
  unfold atRoute
  split
  · exact keeps_format_bind hformat hsuffix fun format hreply => hreply _ _ _
  · rw [create_eq]
    refine keeps_format_bind hformat hsuffix fun format hreply =>
      (keeps_any _).bind fun e _ => (keeps_any _).bind fun isValid _ => keeps_ite (fun _ => ?_)
        fun _ => (keeps_any _).bind fun _ _ => (keeps_any _).bind fun _ _ => hreply _ _ _
    exact (keeps_any _).bind fun _ _ => (keeps_any _).bind fun _ _ =>
      (keeps_any _).bind fun _ _ => hreply _ _ _
  · rw [update_eq]
    refine keeps_format_bind hformat hsuffix fun format hreply =>
      (keeps_any _).bind fun e _ => (keeps_any _).bind fun isValid _ => keeps_ite (fun _ => ?_)
        fun _ => (keeps_any _).bind fun _ _ => (keeps_any _).bind fun _ _ => hreply _ _ _
    exact (keeps_any _).bind fun _ _ => (keeps_any _).bind fun _ _ => hreply _ _ _
  · -- An entity that is removed, or that cannot be, is answered without content.
    refine keeps_format_bind hformat hsuffix fun format hreply =>
      (keeps_any _).bind fun e _ => (keeps_any _).bind fun isValid _ => keeps_ite (fun _ => ?_)
        fun _ => (keeps_any _).bind fun _ _ => hreply _ _ _
    exact (keeps_any _).bind fun _ _ => keeps_pure (.inl rfl)
  · refine keeps_ite (fun _ => ?_) fun _ => ?_
    all_goals exact keeps_format_bind hformat hsuffix fun format hreply =>
      (keeps_any _).bind fun _ _ => (keeps_any _).bind fun _ _ => hreply _ _ _

/-- The answer at a route is in the format that is asked for, or it tells a fault. -/
theorem ends_answer_isIn {request : Request} {p : Place Endpoint}
    (hmatch : s.matchOf? request = some (p, x)) {route : Route} (htarget : p.target = .route route)
    (t : Session) :
    Ends (s.answer c.store request) t (fun r _ => r.IsIn (asked f x.suffix) ∨
      ∃ fault, r = s.tell fault x.suffix []) fun _ _ => False := by
  have hfound : (Place.candidates s.places request.path).isEmpty = false := by
    rw [List.isEmpty_eq_false_iff]
    exact List.ne_nil_of_mem (List.mem_of_find?_eq_some hmatch)
  unfold answer
  dsimp only
  rw [hfound, Bool.false_and, if_neg Bool.false_ne_true, ends_bind]
  have hanswer : Ends (s.answerAt c.store (Place.candidates s.places request.path) request) t
      (fun r _ => r.IsIn (asked f x.suffix) ∨ ∃ fault, r = s.tell fault x.suffix [])
      fun _ _ => False := by
    unfold answerAt
    rw [show chosen? _ request = some (p, x) from hmatch]
    cases s.refusal with
    | some text => exact .inr ⟨_, rfl⟩
    | none =>
      dsimp only
      split
      · exact .inl (.inl rfl)
      · rw [guarded, ends_tryCatch, ends_bind]
        have hroute : s.atPlace c.store p (methodOf request.method) request x =
            s.atRoute c.store route (methodOf request.method) request x := by
          rw [atPlace, htarget]
        rw [hroute]
        exact (keeps_atRoute hformat hsuffix route _ request t trivial).imp
          (fun r _ hr => .inl hr.2) fun fault _ _ => .inr ⟨fault, rfl⟩
  refine hanswer.imp (fun r _ hr => ?_) fun _ _ h => h
  split
  · exact .inl (.inl rfl)
  · exact hr

end

end Act

namespace Site

open Negotiation

/-- In every state of the database, the answer to a request that a route serves, without a suffix or
with that of a format, is in the format that is asked for. The only other answers tell a fault
where there is no suffix and the settings name pages: they are documents. -/
theorem isIn_of_respond {site : Site} {f : Format}
    (hformat : site.service.settings.get "DEFAULT_FORMAT" = .text f.name) (D : Database)
    {request : Request} {p : Place Endpoint} {x : Match}
    (hmatch : site.service.matchOf? request = some (p, x)) {route : Route}
    (htarget : p.target = .route route) (hsuffix : IsSupported x.suffix) :
    (site.respond D request).2.IsIn (asked f x.suffix) ∨
      f = .page ∧ x.suffix = none ∧ (site.respond D request).2.contentType =
        Format.json.contentType ∧
        ∃ fault, (site.respond D request).2 = site.service.tell fault none [] := by
  obtain ⟨-, -, hanswer⟩ := respond_of_answer
    (Act.ends_answer_isIn hformat hsuffix hmatch htarget (.start D))
  rcases hanswer with hin | ⟨fault, htold⟩
  · exact .inl hin
  have htype := Act.contentType_tell (s := site.service) fault x.suffix []
  rw [← htold] at htype
  by_cases hother : x.suffix = none ∧ f = .page
  · obtain ⟨hnone, hpage⟩ := hother
    rw [hnone] at htype htold
    exact .inr ⟨hpage, hnone, htype, fault, htold⟩
  · refine .inl (.inr ?_)
    rw [htype, forFault_eq_asked fun hnone => ?_]
    cases f with
    | json => rfl
    | page => exact absurd ⟨hnone, rfl⟩ hother

end Site

end Hypermedia
