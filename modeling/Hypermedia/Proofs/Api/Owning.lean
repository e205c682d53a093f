import Hypermedia.Proofs.Api.Listing

/-!
# New members have the owner of the address

Where the entities of a type own those of another (`Site.Owns`), a new member that is made at the
address of the members of an owner belongs to this owner, whatever else the payload says about it:
the owner is in its row, it is listed at the address of the members of this owner and of no other,
and the way back from it leads to this owner (`Site.owned_of_respond`).
-/

namespace Hypermedia

/-- The entities of a type own those of another by a relationship to many, and a relationship of
each of those leads back to its owner. -/
structure Site.Owns (site : Site) (t t' : ResourceType) (n m : Model) (rel up : Relationship)
    (back : Link) (column : String) : Prop where
  mirrors : site.catalog.Mirrors n m rel back column
  owners : site.catalog.Fills n
  members : site.catalog.Fills m
  ownerType : site.service.registry.typeOf? n.recordClass = some t
  memberType : site.service.registry.typeOf? m.recordClass = some t'
  target : site.service.registry.resolve rel.target = .ok t'
  readable : rel ∈ t.readableRelationships
  many : rel.isMany = true
  name : up.name = back.name
  readableUp : up ∈ t'.readableRelationships
  one : up.isMany = false
  ownerNames : t.fieldNames.Nodup
  memberNames : t'.fieldNames.Nodup

variable {site : Site} {t t' : ResourceType} {n m : Model} {rel up : Relationship} {back : Link}
  {column : String} (hown : site.Owns t t' n m rel up back column) (h : site.Stands)
  (hsep : site.service.Separates) (hr : site.service.registry.NamesReadable) {D : Database}
  (hD : site.catalog.Sound D) {i : Int}

namespace Site

/-! ## Who is listed, and where -/

section

variable {k : Int} {member : Row} (hmember : D.row? m.rootTable k = some member)
  (hcell : Row.get member column = .int i) {request : Request} (hmethod : request.method = "GET")
  {ext : Option String} (hext : Format.IsSuffix ext)

include hown h hsep hr hD hmember hcell hmethod hext

/-- A member is listed at the address of the members of its owner and of no other. -/
theorem lists_member {x : Route} (hx : x ∈ site.service.routes.routes) (hbranch : x.IsBranch t rel)
    {j : Int} {owner : Row} (howner : D.row? n.rootTable j = some owner)
    (hpath : request.path = t.branchAddress (toString j).toList rel.name ext) :
    ∃ members, site.service.Lists (site.service.root ++ String.ofList request.path) members
        (site.respond D request).2 ∧
      (t'.entityUri (site.service.writer ext) k ∈ members ↔ j = i) := by
  obtain ⟨l, hl, -, hm⟩ := hown.mirrors.members
  refine ⟨_, respond_lists h hsep hr hD hown.owners hown.ownerType howner hown.readable hext
    hown.ownerNames hx hbranch hmethod hpath hl hm hown.memberType hown.many, ?_⟩
  have hnumbers : ∀ {k : Int}, k ∈ (site.catalog.rowsAt D n j owner rel.name).map Row.number ↔
      ∃ other, D.row? m.rootTable k = some other ∧ Row.get other column = .int j :=
    hown.mirrors.mem_numbers h.serves.plain hD hown.owners.mem
  rw [List.mem_map]
  constructor
  · rintro ⟨k', hk', huri⟩
    obtain ⟨other, hother, hother'⟩ := hnumbers.1 hk'
    obtain ⟨hlow, hhigh⟩ := hD.number_range hmember
    obtain ⟨hlow', hhigh'⟩ := hD.number_range hother
    obtain rfl := ResourceType.entityUri_inj (by omega) hhigh' (by omega) hhigh huri
    obtain rfl := Option.some.inj (hmember.symm.trans hother)
    exact Value.int.inj (hother'.symm.trans hcell)
  · rintro rfl
    exact ⟨k, hnumbers.2 ⟨member, hmember, hcell⟩, rfl⟩

/-- The way back from a member leads to its owner. -/
theorem shows_owner {owner : Row} (howner : D.row? n.rootTable i = some owner)
    (hpath : request.path = t'.branchAddress (toString k).toList up.name ext) :
    site.service.Shows t (t.entityUri (site.service.writer ext) i) owner
      (site.respond D request).2 := by
  obtain ⟨htmem, -⟩ := h.serves.exposed.presents_of_typeOf hown.members.mem hown.memberType
  obtain ⟨depth, -, hroutes⟩ := h.exposes.routes
  obtain ⟨x, hx, hbranch⟩ :=
    Tree.exists_singular_of_mem_types hroutes htmem hown.readableUp hown.one
  obtain ⟨-, -, -, hi⟩ := hD.row?_eq_some.1 howner
  exact respond_single h hsep hr hD hown.members hown.memberType hmember hown.readableUp hext
    hown.memberNames hx hbranch hmethod hpath (hown.name ▸ hown.mirrors.link) hown.mirrors.target
    hown.ownerType hown.one (hown.name ▸ hown.mirrors.rowsAt_back howner hcell) hi

end

end Site

/-! ## New members -/

variable {owner : Row} (howner : D.row? n.rootTable i = some owner) {ext : Option String}
  (hext : Format.IsSuffix ext) {request : Request} (hmethod : request.method = "POST")
  (hpath : request.path = t.branchAddress (toString i).toList rel.name ext)

include hown h hsep hr hD howner hext hmethod hpath

namespace Act

open Service

/-- A request for a new member of an owner that is answered with the status of one. -/
theorem ends_answer_owned : Ends (site.service.answer site.catalog.store request) (.start D)
    (fun r u => r.status = 201 →
      Negotiation.IsErrorText site.service.settings site.service.detail r.body ∨
        site.service.Introduces site.catalog u.committed m ext (fun get => get column = .int i) r ∧
          ∃ x ∈ site.service.routes.routes, x.IsBranch t rel)
    fun _ _ => False := by
  obtain ⟨hserves, hexposes⟩ := h
  obtain ⟨htmem, -⟩ := hserves.exposed.presents_of_typeOf hown.owners.mem hown.ownerType
  obtain ⟨-, hpresents⟩ := hserves.exposed.presents_of_typeOf hown.members.mem hown.memberType
  obtain ⟨hlow, -⟩ := hD.number_range howner
  have hhead : request.isHead = false := by rw [Request.isHead, hmethod]; decide
  cases hchosen : chosen? (Place.candidates site.service.places request.path) request with
  | none =>
    exact (ends_answer_unserved hexposes hchosen).imp (fun r u hr hnew => by omega) fun _ _ h => h
  | some found =>
    obtain ⟨p, y⟩ := found
    have hmatch : site.service.matchOf? request = some (p, y) := hchosen
    obtain ⟨hp, hpost⟩ := post_mem_of_matchOf? hmethod hmatch
    have hy := (Place.mem_candidates.1 (List.mem_of_find?_eq_some hchosen)).2
    obtain ⟨x, hx, htarget, hmethods, hbranch, rfl⟩ := eq_of_match?_branch hexposes hsep hr htmem
      hown.readable (isId_toString (by omega)) hext.isExt hown.ownerNames hp (hpath ▸ hy)
    obtain ⟨-, target, q, hscope⟩ := hbranch.many hown.many
    obtain ⟨depth, -, hroutes⟩ := hexposes.routes
    obtain ⟨hformed, hmutable⟩ := Tree.formed_of_mem_routes hroutes hx _ hscope
    obtain rfl := Except.ok.inj (hown.target.symm.trans hformed.2.2.2)
    have hmutable := hmutable (hmethods ▸ hpost)
    have hbuilt : m.isBuilt = true :=
      hpresents.built (by simp_all [Scope.isMutable, Scope.memberType])
    have hmeans : methodOf request.method = .post := by rw [hmethod]; rfl
    refine ends_answer_at hexposes hhead (by rw [hmethod]; decide) hchosen ?_
    rw [hmeans, atPlace, htarget]
    dsimp only
    unfold atRoute
    rw [hscope]
    dsimp only
    rw [String.ofList_toList]
    refine (ends_create_owned hD hown.mirrors hserves hpresents.toDescribes hbuilt hown.owners
      hown.ownerType howner hformed).imp (fun r u hr allowed _ => hr.imp_right fun hr =>
        ⟨hr.append_originHeaders allowed, x, hx, hbranch⟩) fun f u _ hnew => ?_
    have hfault := le_status_tell (s := site.service) f ext []
    omega

end Act

namespace Site

/-- The answer with a new member of an owner tells its address. The member has the owner of the
address in its row, it is listed at the address of the members of this owner and of no other, and
the way back from it leads to this owner. -/
theorem owned_of_respond (hstatus : (site.respond D request).2.status = 201)
    (herror : ¬Negotiation.IsErrorText site.service.settings site.service.detail
      (site.respond D request).2.body) {db : Database} (hdb : (site.respond D request).1 = db) :
    ∃ k member, db.row? m.rootTable k = some member ∧ Row.get member column = .int i ∧
      (site.respond D request).2.headers.filter (fun h => h.1 == "Location") =
        [("Location", Text.uriText (t'.entityUri (site.service.writer ext) k))] ∧
      (∀ j other, db.row? n.rootTable j = some other → ∀ ext, Format.IsSuffix ext →
        ∀ get : Request, get.method = "GET" →
          get.path = t.branchAddress (toString j).toList rel.name ext →
            ∃ members, site.service.Lists (site.service.root ++ String.ofList get.path) members
                (site.respond db get).2 ∧
              (t'.entityUri (site.service.writer ext) k ∈ members ↔ j = i)) ∧
      ∃ owner, db.row? n.rootTable i = some owner ∧ ∀ ext, Format.IsSuffix ext →
        ∀ get : Request, get.method = "GET" →
          get.path = t'.branchAddress (toString k).toList up.name ext →
            site.service.Shows t (t.entityUri (site.service.writer ext) i) owner
              (site.respond db get).2 := by
  obtain ⟨u, hu, hanswer⟩ := respond_of_answer
    (Act.ends_answer_owned hown h hsep hr hD howner hext hmethod hpath)
  obtain ⟨hintroduces, x, hx, hbranch⟩ := (hanswer hstatus).resolve_left herror
  obtain ⟨t₀, k, member, ht₀, hmember, hlocates, hcell⟩ := hintroduces
  obtain rfl := Option.some.inj (ht₀.symm.trans hown.memberType)
  have hafter : site.catalog.Sound db := hdb ▸ (respond_settles h hD request).1
  rw [hu, hdb] at hmember
  -- What the column of the member refers to is there.
  obtain ⟨owner', howner'⟩ : ∃ owner, db.row? n.rootTable i = some owner := by
    obtain ⟨n', hn', hspec⟩ := h.serves.plain.linkSpec hown.members.mem
      (List.mem_of_find?_eq_some hown.mirrors.link)
    obtain rfl := Option.some.inj (hown.mirrors.target.symm.trans hn')
    rcases hafter.reference_cell h.serves.plain hown.members.mem hmember
      (hspec.reference column hown.mirrors.kind).2 with hnull | ⟨j, hj, hsome⟩
    · cases hcell.symm.trans hnull
    · obtain rfl := Value.int.inj (hcell.symm.trans hj)
      exact Option.isSome_iff_exists.1 hsome
  exact ⟨k, member, hmember, hcell, hlocates.header,
    fun j other hother ext hext get hget hpath =>
      lists_member hown h hsep hr hafter hmember hcell hget hext hx hbranch hother hpath,
    owner', howner', fun ext hext get hget hpath =>
      shows_owner hown h hsep hr hafter hmember hcell hget hext howner' hpath⟩

end Site

end Hypermedia
