import Hypermedia.Api.Answer
import Hypermedia.Proofs.Api.Places
import Hypermedia.Proofs.Route.Methods

/-!
# What reads the address of an entity

The address of an entity is the plural name of a type and an id, each after a slash, and the
suffix of a format where one is wanted (`ResourceType.address`). Only the places of the route to
the entities of the type read it if plural names have no slashes, no two types share one and no
option sets a path among these addresses (`Service.Separates`, `Service.eq_of_match?_address`).
So a request to read it is answered by that route (`Service.exists_chosen?_address`).
-/

namespace Hypermedia

/-! ## Routes by what their patterns begin with -/

/-- A route from a type: all entities, one of them, or something below one of them. -/
inductive Route.Starts (t : ResourceType) (x : Route) : Prop
  | all (pattern : x.pattern = [.text s!"/{t.pluralName}"])
  | one (q : String) (pattern : x.pattern = [.text s!"/{t.pluralName}", .id q])
      (kind : x.kind = .entity) (scope : x.scope = some (.type t q))
  | below (q name : String) (rest : Pattern)
      (pattern : x.pattern = .text s!"/{t.pluralName}" :: .id q :: .text s!"/{name}" :: rest)

namespace Tree

variable {r : Registry}

/-- The spot lies below the entities of a type. -/
def Spot.IsBelow (t : ResourceType) (p : Spot) : Prop :=
  ∃ (q name : String) (rest : Pattern),
    p.pattern = .text s!"/{t.pluralName}" :: .id q :: .text s!"/{name}" :: rest

theorem isBelow_foldl {t : ResourceType} {xs : List Step} : ∀ {p : Spot}, p.IsBelow t →
    (xs.foldl Spot.advance p).IsBelow t := by
  induction xs with
  | nil => exact fun h => h
  | cons x xs ih =>
    rintro p ⟨q, name, rest, hpattern⟩
    refine ih ⟨q, name, rest ++ [.id p.scope.idParam, .text s!"/{x.branch.name}"], ?_⟩
    simp [Spot.advance, Spot.branchPattern, Spot.entityPattern, hpattern]

theorem Way.spot_cases (w : Way) : w.spot = .ofType w.start ∨ w.spot.IsBelow w.start := by
  unfold Way.spot
  cases w.steps with
  | nil => exact Or.inl rfl
  | cons x xs =>
    exact Or.inr (isBelow_foldl (p := (Spot.ofType w.start).advance x)
      ⟨_, x.branch.name, [], rfl⟩)

theorem Spot.starts_of_mem_routes {t : ResourceType} {p : Spot}
    (h : p = .ofType t ∨ p.IsBelow t) {x : Route} (hx : x ∈ p.routes r) : x.Starts t := by
  have hpattern : x.pattern = p.pattern ∨
      (x.pattern = p.entityPattern ∧ x.kind = .entity ∧ x.scope = some p.scope) ∨
        ∃ name, x.pattern = p.branchPattern name := by
    rcases List.mem_append.1 hx with hx | hx
    · simp only [ownRoutes, List.mem_cons, List.not_mem_nil, or_false] at hx
      rcases hx with rfl | rfl
      · exact Or.inl rfl
      · exact Or.inr (Or.inl ⟨rfl, rfl, rfl⟩)
    · obtain ⟨rel, -, rfl⟩ := List.mem_map.1 hx
      exact Or.inr (Or.inr ⟨rel.name, rfl⟩)
  rcases h with rfl | ⟨q, name, rest, h⟩
  · rcases hpattern with hx | ⟨hx, hkind, hscope⟩ | ⟨name, hx⟩
    · exact .all hx
    · exact .one _ hx hkind hscope
    · exact .below _ name [] hx
  · rcases hpattern with hx | ⟨hx, -⟩ | ⟨further, hx⟩
    · exact .below q name rest (hx.trans h)
    · exact .below q name (rest ++ [.id p.scope.idParam]) (by rw [hx, Spot.entityPattern, h]; rfl)
    · exact .below q name (rest ++ [.id p.scope.idParam, .text s!"/{further}"])
        (by rw [hx, Spot.branchPattern, Spot.entityPattern, h]; simp)

/-- Every route but the root starts from a type. -/
theorem starts_of_mem_routes {maxDepth : Int} {rootPath : String} {table : RouteTable}
    (h : routes r maxDepth rootPath = .ok table) {x : Route} (hx : x ∈ table.routes) :
    x = rootRoute rootPath ∨ ∃ t ∈ r.types, x.Starts t :=
  ((mem_routes h).1 hx).imp id fun ⟨w, hw, hx⟩ =>
    ⟨w.start, List.mem_of_getElem? hw.start, Spot.starts_of_mem_routes w.spot_cases hx⟩

/-- There is a route to the entities of each type. -/
theorem exists_one_of_mem_types {maxDepth : Int} {rootPath : String} {table : RouteTable}
    (h : routes r maxDepth rootPath = .ok table) {t : ResourceType} (ht : t ∈ r.types) :
    ∃ x ∈ table.routes, ∃ q, x.pattern = [.text s!"/{t.pluralName}", .id q] ∧ x.kind = .entity ∧
      x.scope = some (.type t q) := by
  obtain ⟨i, hi⟩ := List.getElem?_of_mem ht
  let w : Way := { place := i, start := t, steps := [] }
  have hw : w.IsIn r maxDepth :=
    { start := hi, follows := trivial, edges_nodup := List.nodup_nil
      length_le := by simp only [w, List.length_nil]; omega }
  obtain ⟨x, hx, hkind, hpattern, hscope, -⟩ := exists_entity_route r w.spot
  exact ⟨x, (mem_routes h).2 (Or.inr ⟨w, hw, hx⟩), _, hpattern, hkind, hscope⟩

end Tree

/-! ## Reading an address -/

/-- The address of an entity of the type by its id, with the suffix of a format. -/
def ResourceType.address (t : ResourceType) (id : List Char) (ext : Option String) : List Char :=
  '/' :: t.pluralName.toList ++ '/' :: (id ++ (Naming.formatSuffix ext).toList)

/-- Characters that are read as one id. -/
structure IsId (id : List Char) : Prop where
  ne_nil : id ≠ []
  isIdChar : ∀ c ∈ id, Pattern.isIdChar c = true

/-- A text that is read as the suffix of a format. -/
structure IsExt (ext : String) : Prop where
  ne_empty : ext ≠ ""
  slash : '/' ∉ ext.toList

/-- No id goes on into the characters. -/
def StopsId (s : List Char) : Prop := ∀ c ∈ s.head?, Pattern.isIdChar c = false

section

variable {id tail u v : List Char}

/-- What begins an address, but does not go on to the id, ends before the slash. -/
theorem exists_append_of_isPrefix (h : u <+: v ++ '/' :: (id ++ tail)) (hn : ¬v ++ ['/'] <+: u) :
    ∃ x, v = u ++ x := by
  have hslash : v ++ ['/'] <+: v ++ '/' :: (id ++ tail) :=
    (List.prefix_append_right_inj v).2 ⟨id ++ tail, rfl⟩
  rcases List.prefix_or_prefix_of_prefix h hslash with h | h
  · rcases List.prefix_concat_iff.1 h with rfl | ⟨x, hx⟩
    · exact absurd (List.prefix_refl _) hn
    · exact ⟨x, hx.symm⟩
  · exact absurd h hn

theorem suffix?_eq_none {s : List Char} (h : '/' ∈ s) : Place.suffix? s = none := by
  unfold Place.suffix?
  split
  · next r =>
    have hr : '/' ∈ r := by simpa using h
    simp [hr]
  · rfl

variable (hid : IsId id)

include hid

/-- A text that does not go on to the id reads no whole address. -/
theorem Place.match?_text {α : Type} {p : Place α} (hp : p.pattern = [.text (String.ofList u)])
    (hu : ¬v ++ ['/'] <+: u) : p.match? (v ++ '/' :: (id ++ tail)) = none := by
  have hread : ∀ y, Pattern.read? p.pattern (v ++ '/' :: (id ++ tail)) = some y →
      '/' ∈ y.2 ∧ y.2 ≠ ['/'] := by
    intro y hy
    rw [hp, Pattern.read?] at hy
    split at hy
    · next hprefix =>
      simp only [String.toList_ofList, List.isPrefixOf_iff_prefix] at hprefix
      obtain ⟨x, rfl⟩ := exists_append_of_isPrefix hprefix hu
      simp only [String.toList_ofList, List.append_assoc, List.drop_left, Pattern.read?,
        Option.some.injEq] at hy
      subst hy
      refine ⟨by simp, fun h => hid.ne_nil ?_⟩
      have hlength := congrArg List.length h
      simp at hlength
      exact List.eq_nil_of_length_eq_zero (by omega)
    · cases hy
  have hspelling : ((Pattern.spelling p.pattern).toList == v ++ '/' :: (id ++ tail) ++ ['/']) =
      false := by
    rw [beq_eq_false_iff_ne]
    intro h
    have hspelled : (Pattern.spelling p.pattern).toList = u := by
      simp [hp, Pattern.spelling, PatternPiece.spelling]
    refine hu ⟨id ++ tail ++ ['/'], ?_⟩
    rw [← hspelled, h]
    simp
  unfold match?
  split
  · cases hr : Pattern.read? p.pattern (v ++ '/' :: (id ++ tail)) with
    | none => rfl
    | some y => simp [suffix?_eq_none (hread y hr).1]
  · split
    · next hr => exact absurd (hread _ hr).1 (by simp)
    · next hr => exact absurd rfl (hread _ hr).2
    · rw [hspelling, Bool.and_false]
      rfl

/-- An id ends where characters begin that stop it. -/
theorem takeWhile_isIdChar (htail : StopsId tail) :
    (id ++ tail).takeWhile Pattern.isIdChar = id := by
  have hstop : tail.takeWhile Pattern.isIdChar = [] := by
    cases tail with
    | nil => rfl
    | cons c tail => rw [List.takeWhile_cons, htail c rfl]; rfl
  rw [List.takeWhile_append_of_pos hid.isIdChar, hstop, List.append_nil]

/-- An id is read up to what stops it. -/
theorem Pattern.read?_id (q : String) (r : Pattern) (htail : StopsId tail) :
    read? (.id q :: r) ('/' :: (id ++ tail)) =
      (read? r tail).map fun y => ((q, .text (String.ofList id)) :: y.1, y.2) := by
  have htake := takeWhile_isIdChar hid htail
  have hdrop : (id ++ tail).dropWhile isIdChar = tail := by
    have h := List.takeWhile_append_dropWhile (p := isIdChar) (l := id ++ tail)
    rw [htake] at h
    exact List.append_cancel_left h
  have hempty : id.isEmpty = false := by simpa using hid.ne_nil
  rw [read?, htake, hdrop, hempty]
  rfl

/-- The text before the id is that of the pattern, or the address is not read. -/
theorem Pattern.read?_text_id {a b : List Char} (ha : '/' ∉ a) (hb : '/' ∉ b) (q : String)
    (r : Pattern) (htail : ∀ c ∈ tail.head?, c = '.') :
    read? (.text (String.ofList ('/' :: a)) :: .id q :: r) ('/' :: b ++ '/' :: (id ++ tail)) =
      if a = b then (read? r tail).map fun y => ((q, .text (String.ofList id)) :: y.1, y.2)
      else none := by
  rw [read?]
  split
  · next hprefix =>
    simp only [String.toList_ofList, List.isPrefixOf_iff_prefix] at hprefix
    have hshort : ¬ '/' :: b ++ ['/'] <+: '/' :: a := by
      intro h
      have hmem : '/' ∈ a := (List.prefix_cons_inj '/').1 h |>.subset (by simp)
      exact ha hmem
    obtain ⟨x, hx⟩ := exists_append_of_isPrefix hprefix hshort
    obtain rfl : b = a ++ x := List.tail_eq_of_cons_eq hx
    simp only [String.toList_ofList, List.cons_append, List.append_assoc, List.length_cons,
      List.drop_succ_cons, List.drop_left]
    cases x with
    | nil =>
      rw [if_pos (by simp), List.nil_append, read?_id hid q r fun c hc => ?_]
      rw [htail c hc]
      rfl
    | cons c x =>
      have hc : c ≠ '/' := by
        rintro rfl
        exact hb (by simp)
      rw [if_neg (by simp), List.cons_append, read?]
      simp [hc]
  · next hprefix =>
    rw [if_neg]
    rintro rfl
    exact hprefix (by simp)

end

theorem IsExt.formatSuffix_eq {ext : String} (h : IsExt ext) :
    (Naming.formatSuffix (some ext)).toList = '.' :: ext.toList := by
  rw [Naming.formatSuffix, if_neg (by simpa using h.ne_empty), String.toList_append]
  rfl

theorem head?_formatSuffix {ext : Option String} (hext : ∀ e ∈ ext, IsExt e) :
    ∀ c ∈ (Naming.formatSuffix ext).toList.head?, c = '.' := by
  cases ext with
  | none => simp [Naming.formatSuffix]
  | some e =>
    rw [(hext e rfl).formatSuffix_eq]
    simp [eq_comm]

namespace Place

variable {α : Type} {p : Place α} {a : List Char} {t : ResourceType} {id : List Char}
  {ext : Option String} (ha : '/' ∉ a) (ht : '/' ∉ t.pluralName.toList) (hid : IsId id)
  (hext : ∀ e ∈ ext, IsExt e) {q : String}

include ha ht hid hext

/-- Texts below an entity are not in its address. -/
theorem match?_below {name : String} {rest : Pattern}
    (hp : p.pattern = .text (String.ofList ('/' :: a)) :: .id q :: .text s!"/{name}" :: rest) :
    p.match? (t.address id ext) = none := by
  have hstop : Pattern.read? (.text s!"/{name}" :: rest) (Naming.formatSuffix ext).toList =
      none := by
    rw [Pattern.read?, if_neg]
    intro h
    rw [List.isPrefixOf_iff_prefix, String.toList_append] at h
    obtain ⟨y, hy⟩ := h
    exact absurd (head?_formatSuffix hext '/' (by rw [← hy]; rfl)) (by decide)
  have hread : Pattern.read? p.pattern (t.address id ext) = none := by
    rw [hp, ResourceType.address,
      Pattern.read?_text_id hid ha ht q _ (head?_formatSuffix hext), hstop]
    simp
  have hfixed : Pattern.isFixed p.pattern = false := by
    rw [hp]
    rfl
  simp [match?, hread, hfixed]

/-- The pattern of an entity reads the address if it begins with the plural name, and only
without or with a suffix as the place has one. -/
theorem match?_one (hp : p.pattern = [.text (String.ofList ('/' :: a)), .id q]) :
    p.match? (t.address id ext) = if a = t.pluralName.toList ∧ p.hasSuffix = ext.isSome then
      some { params := [(q, .text (String.ofList id))], suffix := ext } else none := by
  have hread : Pattern.read? p.pattern (t.address id ext) =
      if a = t.pluralName.toList then
        some ([(q, .text (String.ofList id))], (Naming.formatSuffix ext).toList)
      else none := by
    rw [hp, ResourceType.address,
      Pattern.read?_text_id hid ha ht q _ (head?_formatSuffix hext)]
    rfl
  have hfixed : Pattern.isFixed p.pattern = false := by
    rw [hp]
    rfl
  by_cases hname : a = t.pluralName.toList
  · rw [if_pos hname] at hread
    cases ext with
    | none =>
      have hnone : (Naming.formatSuffix none).toList = [] := by simp [Naming.formatSuffix]
      rw [hnone] at hread
      cases hsuffix : p.hasSuffix <;> simp [match?, hread, hsuffix, hname, suffix?]
    | some e =>
      have he := hext e rfl
      rw [he.formatSuffix_eq] at hread
      cases hsuffix : p.hasSuffix <;>
        simp [match?, hread, hsuffix, hname, suffix?, hfixed, he.ne_empty, he.slash]
  · rw [if_neg hname] at hread
    rw [if_neg fun h => hname h.1]
    simp [match?, hread, hfixed]

end Place

/-! ## The places that read it -/

namespace Service

theorem mergeSlashes_eq_self {s : List Char} (h : '/' ∉ s) :
    mergeSlashes ('/' :: s) = '/' :: s := by
  have hrest : ∀ {s : List Char}, '/' ∉ s → mergeSlashes s = s := by
    intro s
    induction s with
    | nil => exact fun _ => rfl
    | cons c s ih =>
      intro h
      simp only [List.mem_cons, not_or] at h
      rw [mergeSlashes, ih h.2]
      rintro r rfl
      exact absurd rfl h.1
  rw [mergeSlashes, hrest h]
  rintro r - rfl
  exact h List.mem_cons_self

/-- No two types are served at addresses that begin alike, and no option sets a path among the
addresses of entities. -/
structure Separates (s : Service) : Prop where
  mount : s.mount = ""
  slash : ∀ t ∈ s.registry.types, '/' ∉ t.pluralName.toList
  distinct : (s.registry.types.map ResourceType.pluralName).Nodup
  option : ∀ o ∈ [s.rootOption, s.schemaOption], ∀ u ∈ [o.alone, o.text],
    ∀ t ∈ s.registry.types, ¬ '/' :: t.pluralName.toList ++ ['/'] <+: mergeSlashes u.toList

variable {s : Service} {p : Place Endpoint}

theorem mounted_text (u : String) (r : Pattern) :
    mounted "" (.text u :: r) = .text (String.ofList (mergeSlashes u.toList)) :: r := by
  rw [mounted, String.empty_append]

/-- The pattern of a type is that of its plural name. -/
theorem mounted_plural {t : ResourceType} (ht : '/' ∉ t.pluralName.toList) (r : Pattern) :
    mounted "" (.text s!"/{t.pluralName}" :: r) =
      .text (String.ofList ('/' :: t.pluralName.toList)) :: r := by
  have hslash : (s!"/{t.pluralName}").toList = '/' :: t.pluralName.toList := by
    rw [String.toList_append]
    rfl
  rw [mounted_text, hslash, mergeSlashes_eq_self ht]

theorem mem_twoPlaces {mount : String} {alone suffixed : Pattern} {methods : List Method}
    {target : Endpoint} (h : p ∈ twoPlaces mount alone suffixed methods target) :
    (p.pattern = mounted mount alone ∨ p.pattern = mounted mount suffixed) ∧
      p.methods = methods ∧ p.target = target := by
  simp only [twoPlaces, List.mem_cons, List.not_mem_nil, or_false] at h
  rcases h with rfl | rfl
  · exact ⟨Or.inl rfl, rfl, rfl⟩
  · exact ⟨Or.inr rfl, rfl, rfl⟩

variable (h : s.Exposes) (hs : s.Separates) {t : ResourceType} (ht : t ∈ s.registry.types)
  {id : List Char} (hid : IsId id) {ext : Option String} (hext : ∀ e ∈ ext, IsExt e)

include hs ht hid

/-- The paths that options set are no addresses of entities. -/
theorem match?_option {o : PathOption} (ho : o ∈ [s.rootOption, s.schemaOption]) {u : String}
    (hu : u ∈ [o.alone, o.text]) (hp : p.pattern = mounted s.mount [.text u]) :
    p.match? (t.address id ext) = none := by
  rw [hs.mount, mounted_text] at hp
  exact Place.match?_text hid hp (hs.option o ho u hu t ht)

include h hext

/-- Whatever reads the address of an entity leads to the entities of the type. -/
theorem eq_of_match?_address (hp : p ∈ s.places) {y : Match}
    (hy : p.match? (t.address id ext) = some y) :
    ∃ x ∈ s.routes.routes, ∃ q, p.target = .route x ∧ p.methods = x.methods ∧
      x.kind = .entity ∧ x.scope = some (.type t q) ∧
        y = { params := [(q, .text (String.ofList id))], suffix := ext } := by
  have hoption : ∀ {o : PathOption} {u : String}, o ∈ [s.rootOption, s.schemaOption] →
      u ∈ [o.alone, o.text] → p.pattern ≠ mounted s.mount [.text u] := by
    intro o u ho hu hp
    rw [match?_option hs ht hid ho hu hp] at hy
    cases hy
  obtain ⟨depth, -, hroutes⟩ := h.routes
  rcases (h.places p).1 hp with ⟨x, hx, hp⟩ | hp
  · obtain ⟨hpattern, hmethods, htarget⟩ := mem_twoPlaces hp
    have hpattern : p.pattern = mounted s.mount x.pattern := by
      refine hpattern.elim (fun hp => ?_) fun hp => hp
      unfold alonePattern at hp
      split at hp
      · exact absurd hp (hoption (o := s.rootOption) (by simp) (by simp))
      · exact hp
    rcases Tree.starts_of_mem_routes hroutes hx with rfl | ⟨t', ht', hstarts⟩
    · exact absurd hpattern (hoption (o := s.rootOption) (by simp) (by simp))
    have hslash := hs.slash t' ht'
    rw [hs.mount] at hpattern
    cases hstarts with
    | all hx =>
      rw [hx, mounted_plural hslash] at hpattern
      rw [ResourceType.address, Place.match?_text hid hpattern] at hy
      · cases hy
      · exact fun h => hslash (((List.prefix_cons_inj '/').1 h).subset (by simp))
    | one q hpattern' hkind hscope =>
      rw [hpattern', mounted_plural hslash] at hpattern
      rw [Place.match?_one hslash (hs.slash t ht) hid hext hpattern] at hy
      split at hy
      · next hname =>
        obtain rfl := List.inj_on_of_nodup_map hs.distinct ht' ht (String.toList_inj.1 hname.1)
        exact ⟨x, hx, q, htarget, hmethods, hkind, hscope, (Option.some.inj hy).symm⟩
      · cases hy
    | below q name rest hx =>
      rw [hx, mounted_plural hslash] at hpattern
      rw [Place.match?_below hslash (hs.slash t ht) hid hext hpattern] at hy
      cases hy
  · obtain ⟨hpattern, -⟩ := mem_twoPlaces hp
    rcases hpattern with hp | hp
    · exact absurd hp (hoption (o := s.schemaOption) (by simp) (by simp))
    · exact absurd hp (hoption (o := s.schemaOption) (by simp) (by simp))

/-- The address of an entity is read. -/
theorem exists_match?_address : ∃ p ∈ s.places, (p.match? (t.address id ext)).isSome = true := by
  obtain ⟨depth, -, hroutes⟩ := h.routes
  obtain ⟨x, hx, q, hpattern, hkind, -⟩ := Tree.exists_one_of_mem_types hroutes ht
  have hplaces : ∀ suffix, ∃ p ∈ s.places, p.pattern = mounted "" x.pattern ∧
      p.hasSuffix = suffix := by
    have halone : alonePattern s.rootOption x = x.pattern := by
      rw [alonePattern, if_neg (by rw [hkind]; decide)]
    intro suffix
    cases suffix with
    | false =>
      refine ⟨_, (h.places _).2 (Or.inl ⟨x, hx, List.mem_cons_self⟩), ?_, rfl⟩
      rw [halone, hs.mount]
    | true =>
      refine ⟨_, (h.places _).2 (Or.inl ⟨x, hx, List.mem_cons_of_mem _ List.mem_cons_self⟩), ?_,
        rfl⟩
      rw [hs.mount]
  obtain ⟨p, hp, heq, hsuffix⟩ := hplaces ext.isSome
  refine ⟨p, hp, ?_⟩
  rw [hpattern, mounted_plural (hs.slash t ht)] at heq
  rw [Place.match?_one (hs.slash t ht) (hs.slash t ht) hid hext heq, if_pos ⟨rfl, hsuffix⟩]
  rfl

/-- A request to the address of an entity is answered by the route to the entities of the type,
with the id and the suffix of the address, if such routes serve its method. -/
theorem exists_chosen?_of_serves {request : Request}
    (hserves : ∀ x ∈ s.routes.routes, ∀ q, x.kind = .entity → x.scope = some (.type t q) →
      request.method ∈ x.methods.map Method.name) (hpath : request.path = t.address id ext) :
    ∃ p x q, chosen? (Place.candidates s.places request.path) request =
        some (p, { params := [(q, .text (String.ofList id))], suffix := ext }) ∧
      p.target = .route x ∧ x.kind = .entity ∧ x.scope = some (.type t q) := by
  have hread : ∀ p y, (p, y) ∈ Place.candidates s.places request.path →
      p ∈ s.places ∧ p.match? (t.address id ext) = some y := by
    intro p y hmem
    rw [← hpath]
    exact Place.mem_candidates.1 hmem
  obtain ⟨p₀, hp₀, hsome⟩ := exists_match?_address h hs ht hid hext
  obtain ⟨y₀, hy₀⟩ := Option.isSome_iff_exists.1 hsome
  have hmem₀ : (p₀, y₀) ∈ Place.candidates s.places request.path :=
    Place.mem_candidates.2 ⟨hp₀, hpath ▸ hy₀⟩
  -- Every place that reads the address serves the method, so the first one is chosen.
  have hserved : (p₀.methodNames.contains request.method) = true := by
    obtain ⟨x, hx, q, -, hmethods, hkind, hscope, -⟩ :=
      eq_of_match?_address h hs ht hid hext hp₀ hy₀
    rw [List.contains_iff_mem, Place.methodNames, hmethods]
    simp [hserves x hx q hkind hscope]
  obtain ⟨⟨p, y⟩, hchosen⟩ : ∃ found,
      chosen? (Place.candidates s.places request.path) request = some found :=
    Option.isSome_iff_exists.1 (List.find?_isSome.2 ⟨_, hmem₀, hserved⟩)
  obtain ⟨hp, hy⟩ := hread p y (List.mem_of_find?_eq_some hchosen)
  obtain ⟨x, -, q, htarget, -, hkind, hscope, rfl⟩ :=
    eq_of_match?_address h hs ht hid hext hp hy
  exact ⟨p, x, q, hchosen, htarget, hkind, hscope⟩

/-- All routes can be read. -/
theorem exists_chosen?_address {request : Request} (hmethod : request.method = "GET")
    (hpath : request.path = t.address id ext) : ∃ p x q,
      chosen? (Place.candidates s.places request.path) request =
        some (p, { params := [(q, .text (String.ofList id))], suffix := ext }) ∧
      p.target = .route x ∧ x.kind = .entity ∧ x.scope = some (.type t q) := by
  obtain ⟨depth, -, hroutes⟩ := h.routes
  refine exists_chosen?_of_serves h hs ht hid hext (fun x hx _ _ _ => ?_) hpath
  rw [hmethod]
  exact List.mem_map_of_mem (f := Method.name) (Tree.methods_of_mem_routes hroutes hx).1

/-- Entities of types that are not abstract can be deleted. -/
theorem exists_chosen?_delete (hopen : t.isAbstract = false) {request : Request}
    (hmethod : request.method = "DELETE") (hpath : request.path = t.address id ext) : ∃ p x q,
      chosen? (Place.candidates s.places request.path) request =
        some (p, { params := [(q, .text (String.ofList id))], suffix := ext }) ∧
      p.target = .route x ∧ x.kind = .entity ∧ x.scope = some (.type t q) := by
  obtain ⟨depth, -, hroutes⟩ := h.routes
  refine exists_chosen?_of_serves h hs ht hid hext (fun x hx q hkind hscope => ?_) hpath
  rw [hmethod]
  refine List.mem_map_of_mem (f := Method.name) ((Tree.methods_of_mem_routes hroutes hx).2.2.2.2
    ⟨hkind, _, hscope, ⟨fun y hy => ?_, hopen⟩⟩)
  obtain rfl := List.mem_singleton.1 hy
  rfl

end Service

end Hypermedia
