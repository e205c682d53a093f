import Mathlib.Data.List.TakeWhile
import Hypermedia.Proofs.Format.Marks

/-!
# Paths between quotes

No part of an address holds a double quote. So an address that begins before a quote ends before
it, and it is the same whatever follows the quote (`MayStop.address`): a quote is a place where
a text can be cut (`cut_quote`). Hence a path that begins with a slash and stands between quotes
is a link as a whole in every page (`linkUrls_quotedPath`).
-/

namespace Hypermedia.Format

/-! ## Parts that stop at a quote -/

/-- A length that is taken at the start of a text and that a double quote ends. -/
structure Stops (f : List Char → Nat) : Prop where
  le : ∀ s, f s ≤ s.length
  quote : ∀ u v, f (u ++ '"' :: v) = f u

/-- A length that may be taken at the start of a text and that a double quote ends. -/
structure MayStop (f : List Char → Option Nat) : Prop where
  le : ∀ {s n}, f s = some n → n ≤ s.length
  quote : ∀ u v, f (u ++ '"' :: v) = f u

theorem drop_quote {u : List Char} {n : Nat} (hn : n ≤ u.length) (v : List Char) :
    (u ++ '"' :: v).drop n = u.drop n ++ '"' :: v :=
  List.drop_append_of_le_length hn

theorem getElem?_quote {c : Char} (hc : c ≠ '"') {u : List Char} {n : Nat} (hn : n ≤ u.length)
    (v : List Char) : (u ++ '"' :: v)[n]? = some c ↔ u[n]? = some c := by
  rcases Nat.lt_or_eq_of_le hn with hlt | rfl
  · rw [List.getElem?_append_left hlt]
  · simp [hc.symm]

theorem isPrefixOf_quote {t : List Char} (ht : '"' ∉ t) (u v : List Char) :
    t.isPrefixOf (u ++ '"' :: v) = t.isPrefixOf u := by
  induction t generalizing u with
  | nil => simp
  | cons c t ih =>
    cases u with
    | nil =>
      have hc : (c == '"') = false := by
        simpa using fun h : c = '"' => ht (h ▸ List.mem_cons_self)
      simp [List.isPrefixOf, hc]
    | cons d u =>
      rw [List.cons_append, List.isPrefixOf, List.isPrefixOf,
        ih (fun h => ht (List.mem_cons_of_mem c h))]

namespace Stops

/-- One part after the other. -/
theorem add {f g : List Char → Nat} (hf : Stops f) (hg : Stops g) :
    Stops fun s => f s + g (s.drop (f s)) where
  le s := by
    have hfirst := hf.le s
    have hnext := hg.le (s.drop (f s))
    rw [List.length_drop] at hnext
    omega
  quote u v := by rw [hf.quote, drop_quote (hf.le u), hg.quote]

protected theorem run {p : Char → Bool} (hp : p '"' = false) : Stops (run p) where
  le s := (List.takeWhile_prefix p).length_le
  quote u v := by
    induction u with
    | nil => simp [Format.run, hp]
    | cons c u ih => cases hc : p c <;> simp_all [Format.run]

protected theorem optional {c : Char} (hc : c ≠ '"') : Stops (optional c) where
  le s := by
    cases s with
    | nil => simp [Format.optional]
    | cons d s => grind [Format.optional]
  quote u v := by
    cases u with
    | nil => simp [Format.optional, hc.symm]
    | cons d u => rfl

/-- A fixed text that may be missing. -/
theorem fixed {t : List Char} (ht : '"' ∉ t) :
    Stops fun s => if t.isPrefixOf s then t.length else 0 where
  le s := by
    split
    · next h => exact (List.isPrefixOf_iff_prefix.1 h).length_le
    · exact Nat.zero_le _
  quote u v := by rw [isPrefixOf_quote ht]

/-- A part that begins with the character `c`. -/
theorem after {c : Char} (hc : c ≠ '"') {f g : List Char → Nat} (hg : ∀ r, g r ≤ r.length + 1)
    (hquote : ∀ u v, g (u ++ '"' :: v) = g u) (hf : ∀ r, f (c :: r) = g r)
    (hother : ∀ s, s.head? ≠ some c → f s = 0) : Stops f where
  le s := by
    by_cases hs : s.head? = some c
    · obtain ⟨r, rfl⟩ := List.head?_eq_some_iff.1 hs
      exact (hf r).trans_le (hg r)
    · exact (hother s hs).trans_le (Nat.zero_le _)
  quote u v := by
    cases u with
    | nil => rw [hother [] (by simp), hother _ (by simpa using hc.symm)]
    | cons d u =>
      by_cases hd : d = c
      · rw [hd, List.cons_append, hf, hf, hquote]
      · rw [hother _ (by simpa using hd), hother _ (by simpa using hd)]

protected theorem number : Stops numberLength := by
  have hdigits : Stops (Format.run Char.isDigit) := .run (by decide)
  refine .after (c := ':') (g := fun r => if run Char.isDigit r = 0 then 0 else
    run Char.isDigit r + 1) (by decide) (fun r => ?_) (fun u v => ?_) (fun r => rfl) fun s hs => ?_
  · split
    · exact Nat.zero_le _
    · exact Nat.succ_le_succ (hdigits.le r)
  · simp only [hdigits.quote]
  · cases s with
    | nil => rfl
    | cons d s => simp_all [numberLength]

/-- The path after a host. -/
def slashLength (s : List Char) : Nat :=
  match s with
  | '/' :: r => Format.run isPathChar r + 1
  | _ => 0

protected theorem slash : Stops slashLength := by
  have hpath : Stops (Format.run isPathChar) := .run (by decide)
  refine .after (c := '/') (by decide) (fun r => Nat.succ_le_succ (hpath.le r))
    (fun u v => congrArg _ (hpath.quote u v)) (fun r => rfl) fun s hs => ?_
  cases s with
  | nil => rfl
  | cons d s => simp_all [slashLength]

protected theorem tail : Stops tailLength := by
  have hquery : Stops (Format.run isQueryChar) := .run (by decide)
  have hword : Stops (Format.run Text.isWord) := .run (by decide)
  have hparts := Stops.slash.add ((Stops.optional (c := '?') (by decide)).add (hquery.add
    ((Stops.optional (c := '#') (by decide)).add hword)))
  simp only [← Nat.add_assoc] at hparts
  exact hparts

end Stops

namespace MayStop

protected theorem user : MayStop userLength? := by
  have hchars : Stops (run isUserChar) := .run (by decide)
  refine ⟨fun {s n} h => ?_, fun u v => ?_⟩
  · grind [userLength?]
  · simp [userLength?, hchars.quote, getElem?_quote (c := '@') (by decide) (hchars.le u)]

protected theorem host : MayStop hostLength? := by
  have hchars : Stops (run isHostChar) := .run (by decide)
  refine ⟨fun {s n} h => ?_, fun u v => ?_⟩
  · have hle := hchars.le s
    grind [hostLength?]
  · simp only [hostLength?, hchars.quote]

/-- A part that is never missing. -/
theorem ofStops {f : List Char → Nat} (hf : Stops f) : MayStop fun s => some (f s) where
  le {s} _ h := Option.some.inj h ▸ hf.le s
  quote u v := congrArg some (hf.quote u v)

/-- One part after the other. -/
theorem bind {f g : List Char → Option Nat} (hf : MayStop f) (hg : MayStop g) :
    MayStop fun s => (f s).bind fun n => (g (s.drop n)).map (n + ·) where
  le {s n} h := by
    obtain ⟨k, hk, h⟩ := Option.bind_eq_some_iff.1 h
    obtain ⟨m, hm, rfl⟩ := Option.map_eq_some_iff.1 h
    have hfirst := hf.le hk
    have hnext := hg.le hm
    rw [List.length_drop] at hnext
    omega
  quote u v := by
    rw [hf.quote]
    cases hu : f u with
    | none => rfl
    | some n => simp only [Option.bind_some, drop_quote (hf.le hu), hg.quote]

/-- One part, or else another one. -/
theorem orElse {f g : List Char → Option Nat} (hf : MayStop f) (hg : MayStop g) :
    MayStop fun s => (f s).or (g s) where
  le {s n} h := by
    rcases Option.or_eq_some_iff.1 h with h | ⟨-, h⟩
    · exact hf.le h
    · exact hg.le h
  quote u v := by rw [hf.quote, hg.quote]

/-- The name of a scheme and its colon. -/
def schemeName? (s : List Char) : Option Nat :=
  let n := run isSchemeChar s
  if n < 3 || 9 < n || s[n]? != some ':' then none else some (n + 1)

protected theorem schemeName : MayStop schemeName? := by
  have hchars : Stops (run isSchemeChar) := .run (by decide)
  refine ⟨fun {s n} h => ?_, fun u v => ?_⟩
  · grind [schemeName?]
  · have hcolon := getElem?_quote (c := ':') (by decide) (hchars.le u) v
    simp [schemeName?, hchars.quote, bne, Bool.beq_eq_decide_eq, hcolon]

protected theorem userHost : MayStop userHostLength? := by
  have hparts := (MayStop.user.bind MayStop.host).orElse MayStop.host
  convert hparts using 2 with s
  unfold userHostLength?
  cases userLength? s with
  | none => rfl
  | some n => cases hhost : hostLength? (s.drop n) <;> simp [hhost]

protected theorem scheme : MayStop schemeLength? := by
  have hslashes := Stops.fixed (t := "//".toList) (by decide)
  have hparts := MayStop.schemeName.bind ((ofStops hslashes).bind
    (MayStop.userHost.bind (ofStops (Stops.number.add Stops.tail))))
  convert hparts using 2 with s
  unfold schemeLength? schemeName?
  extract_lets n r slashes rest
  by_cases hname : n < 3 || 9 < n || s[n]? != some ':'
  · simp only [hname, if_true]
    rfl
  · simp only [hname, Bool.false_eq_true, if_false, Option.bind_some]
    change (userHostLength? rest).bind _ =
      Option.map _ (Option.map _ ((userHostLength? rest).bind _))
    cases userHostLength? rest with
    | none => rfl
    | some host => simp [rest, slashes, Nat.add_assoc, r]

/-- A host and the tail of its address. -/
def siteLength? (s : List Char) : Option Nat :=
  (hostLength? s).bind fun n => (some (tailLength (s.drop n))).map (n + ·)

protected theorem bare : MayStop bareLength? := by
  have hsite : MayStop siteLength? := MayStop.host.bind (ofStops Stops.tail)
  have hwww : MayStop fun s => if "www.".toList.isPrefixOf s then some 4 else none := by
    refine ⟨fun {s n} h => ?_, fun u v => by rw [isPrefixOf_quote (by decide)]⟩
    obtain ⟨hfixed, hn⟩ := Option.ite_none_right_eq_some.1 h
    cases hn
    exact (List.isPrefixOf_iff_prefix.1 hfixed).length_le
  convert (hwww.bind hsite).orElse (MayStop.user.bind hsite) using 2 with s
  unfold bareLength?
  extract_lets after www
  have hafter : after = fun n => (siteLength? (s.drop n)).map (n + ·) := by
    funext n
    change (hostLength? (s.drop n)).bind _ = ((hostLength? (s.drop n)).bind _).map _
    cases hostLength? (s.drop n) with
    | none => rfl
    | some host => simp [Nat.add_assoc]
  have hfirst : www = (if "www.".toList.isPrefixOf s then some 4 else none).bind after := by
    unfold www
    split <;> rfl
  rw [hfirst, ← hafter]
  cases (if "www.".toList.isPrefixOf s then some 4 else none).bind after <;> rfl

/-- An address that is not a path. -/
protected theorem absolute : MayStop fun s => (schemeLength? s).or (bareLength? s) :=
  MayStop.scheme.orElse MayStop.bare

end MayStop

/-! ## Cutting at a quote -/

theorem addressLength?_eq (before : Option Char) (s : List Char) : addressLength? before s =
    ((schemeLength? s).or (bareLength? s)).or (pathLength? before s) := by
  unfold addressLength?
  cases schemeLength? s <;> cases bareLength? s <;> rfl

theorem pathLength?_quote (before : Option Char) (u v : List Char) :
    pathLength? before (u ++ '"' :: v) = pathLength? before (u ++ ['"']) := by
  have hchars : Stops (run isPathChar) := .run (by decide)
  cases u with
  | nil => rfl
  | cons c u =>
    by_cases hc : c = '/'
    · subst hc
      have hnext : ∀ v, (u ++ '"' :: v)[run isPathChar u]? = (u ++ ['"'])[run isPathChar u]? := by
        intro v
        rcases Nat.lt_or_eq_of_le (hchars.le u) with hlt | heq
        · rw [List.getElem?_append_left hlt, List.getElem?_append_left hlt]
        · simp [heq]
      simp only [pathLength?, List.cons_append, hchars.quote, hnext]
    · simp [pathLength?, hc]

theorem pathLength?_le {before : Option Char} {u v : List Char} {n : Nat}
    (h : pathLength? before (u ++ '"' :: v) = some n) : n ≤ u.length := by
  have hchars : Stops (run isPathChar) := .run (by decide)
  cases u with
  | nil => simp [pathLength?] at h
  | cons c u =>
    by_cases hc : c = '/'
    · subst hc
      simp only [pathLength?, List.cons_append, hchars.quote] at h
      obtain ⟨-, hn⟩ := Option.ite_none_right_eq_some.1 h
      cases hn
      exact Nat.succ_le_succ (hchars.le u)
    · simp [pathLength?, hc] at h

/-- An address before a quote is the same whatever follows the quote. -/
theorem addressLength?_quote (before : Option Char) (u v : List Char) :
    addressLength? before (u ++ '"' :: v) = addressLength? before (u ++ ['"']) := by
  rw [addressLength?_eq, addressLength?_eq, MayStop.absolute.quote, MayStop.absolute.quote,
    pathLength?_quote]

/-- An address that begins before a quote ends before it. -/
theorem addressLength?_le {before : Option Char} {u v : List Char} {n : Nat}
    (h : addressLength? before (u ++ '"' :: v) = some n) : n ≤ u.length := by
  rw [addressLength?_eq, MayStop.absolute.quote] at h
  rcases Option.or_eq_some_iff.1 h with h | ⟨-, h⟩
  · exact MayStop.absolute.le h
  · exact pathLength?_le h

/-- No address begins at a quote. -/
theorem cut_quote_cons (before : Option Char) (v : List Char) :
    cut before ('"' :: v) = .char '"' :: cut (some '"') v := by
  rw [cut]
  split
  · next n h => exact absurd (addressLength?_le (u := []) h) (Nat.not_succ_le_zero n)
  · rfl

/-- A text is cut at a quote: the parts before it do not depend on what follows it, nor do the
parts that follow it depend on what stands before it. -/
theorem cut_quote (before : Option Char) (u v : List Char) :
    cut before (u ++ '"' :: v) = cut before (u ++ ['"']) ++ cut (some '"') v := by
  induction hlength : u.length using Nat.strongRecOn generalizing before u with
  | _ length ih =>
    cases u with
    | nil => simp [cut_quote_cons, cut]
    | cons c u =>
      subst hlength
      rw [List.cons_append, List.cons_append, cut, cut, ← List.cons_append, ← List.cons_append,
        addressLength?_quote]
      split
      · next n h =>
        have hn := addressLength?_le h
        rw [List.length_cons, Nat.succ_le_succ_iff] at hn
        rw [List.take_append_of_le_length (by simpa using hn),
          List.take_append_of_le_length (by simpa using hn), drop_quote hn, drop_quote hn,
          ih _ (by rw [List.length_drop, List.length_cons]; omega) _ _ rfl, List.cons_append]
      · rw [ih _ (by simp) _ _ rfl, List.cons_append]

/-! ## Paths -/

theorem addressLength?_path {r : List Char} (hr : ∀ c ∈ r, isPathChar c = true) (b : List Char) :
    addressLength? (some '"') ('/' :: r ++ '"' :: b) = some (r.length + 1) := by
  have hscheme : schemeLength? ('/' :: r ++ '"' :: b) = none := by
    simp [schemeLength?, run, isSchemeChar]
  have hbare : bareLength? ('/' :: r ++ '"' :: b) = none := by
    simp [bareLength?, userLength?, run, show isUserChar '/' = false by decide]
  have hpath : run isPathChar (r ++ '"' :: b) = r.length := by
    rw [(Stops.run (by decide)).quote, run, List.takeWhile_eq_self_iff.2 hr]
  rw [addressLength?_eq, hscheme, hbare]
  simp [pathLength?, hpath]

/-- A path between quotes is one part of a text. -/
theorem cut_path {r : List Char} (hr : ∀ c ∈ r, isPathChar c = true) (b : List Char) :
    cut (some '"') ('/' :: r ++ '"' :: b) =
      .address ('/' :: r) :: cut none ('"' :: b) := by
  have hlength := addressLength?_path hr b
  rw [List.cons_append] at hlength ⊢
  rw [cut, hlength]
  simp [cut_quote_cons]

/-- No character of a path has a meaning in a page. -/
theorem isMarkup_of_isPathChar {c : Char} (hc : isPathChar c = true) : Text.isMarkup c = false := by
  have hplain : (['&', '<', '>', '"', Char.ofNat 39].all fun d => !isPathChar d) = true := by
    decide
  by_contra hmarkup
  have hmem : c ∈ ['&', '<', '>', '"', Char.ofNat 39] := by
    simp only [Text.isMarkup, Bool.not_eq_false, Bool.or_eq_true, List.contains_iff_mem,
      beq_iff_eq] at hmarkup
    rcases hmarkup with hmarkup | rfl
    · exact List.mem_append_left [Char.ofNat 39] hmarkup
    · decide
  simpa [hc] using List.all_eq_true.1 hplain c hmem

theorem escapeChars_path {s : List Char} (hs : ∀ c ∈ s, isPathChar c = true) :
    Text.escapeChars s = s := by
  induction s with
  | nil => rfl
  | cons c s ih =>
    have hone : Text.escapeChar c = [c] := by
      have hplain := isMarkup_of_isPathChar (hs c List.mem_cons_self)
      simpa [hplain] using Text.escapeChar_eq c
    have hrest : s.flatMap Text.escapeChar = s := ih fun d hd => hs d (List.mem_cons_of_mem c hd)
    rw [Text.escapeChars, List.flatMap_cons, hone, hrest, List.singleton_append]

/-- A path that begins with a slash and stands between double quotes is a link as a whole, and
what surrounds it is written as it is without the path. -/
theorem linkUrls_quotedPath (a b p : String) (hstart : p.toList.head? = some '/')
    (hp : ∀ c ∈ p.toList, Text.isWord c = true ∨ c ∈ ['-', '.', '/', '~', '%', '+']) :
    linkUrls (a ++ "\"" ++ p ++ "\"" ++ b) =
      linkUrls (a ++ "\"") ++ ("<a href=\"" ++ p ++ "\">" ++ p ++ "</a>") ++
        linkUrls ("\"" ++ b) := by
  obtain ⟨r, hr⟩ := List.head?_eq_some_iff.1 hstart
  have hsigns : ['-', '.', '/', '~', '%', '+'].all isPathChar = true := by decide
  have hclass : ∀ c ∈ '/' :: r, isPathChar c = true := by
    intro c hc
    rcases hp c (hr ▸ hc) with hword | hsign
    · simp [isPathChar, hword]
    · exact List.all_eq_true.1 hsigns c hsign
  have hcut : cut none (a.toList ++ '"' :: ('/' :: r ++ '"' :: b.toList)) =
      cut none (a.toList ++ ['"']) ++ .address ('/' :: r) :: cut none ('"' :: b.toList) := by
    rw [cut_quote, cut_path fun c hc => hclass c (List.mem_cons_of_mem _ hc)]
  have hquote : "\"".toList = ['"'] := rfl
  apply String.toList_inj.1
  calc (linkUrls (a ++ "\"" ++ p ++ "\"" ++ b)).toList
      = linkChars (a.toList ++ '"' :: ('/' :: r ++ '"' :: b.toList)) := by
        simp only [linkUrls, String.toList_append, String.toList_ofList, hr, hquote,
          List.append_assoc, List.cons_append, List.nil_append]
    _ = linkChars (a.toList ++ ['"']) ++ (anchor ('/' :: r) ++ linkChars ('"' :: b.toList)) := by
        rw [linkChars, hcut, List.flatMap_append, List.flatMap_cons]
        rfl
    _ = (linkUrls (a ++ "\"") ++ ("<a href=\"" ++ p ++ "\">" ++ p ++ "</a>") ++
          linkUrls ("\"" ++ b)).toList := by
        unfold anchor
        rw [escapeChars_path hclass]
        simp only [linkUrls, String.toList_append, String.toList_ofList, hr, hquote,
          List.append_assoc, List.cons_append, List.nil_append]

/-- The path of a book, with an address that reaches up to its quote and more addresses after
it. -/
theorem linkUrls_quotedPath_book :
    "/books/a%20b".toList.head? = some '/' ∧
    (∀ c ∈ "/books/a%20b".toList, Text.isWord c = true ∨ c ∈ ['-', '.', '/', '~', '%', '+']) ∧
    linkUrls ("http://a.example/x" ++ "\"" ++ "/books/a%20b" ++ "\"" ++ ": www.b.example \"/c\"") =
      linkUrls ("http://a.example/x" ++ "\"") ++
        ("<a href=\"" ++ "/books/a%20b" ++ "\">" ++ "/books/a%20b" ++ "</a>") ++
          linkUrls ("\"" ++ ": www.b.example \"/c\"") :=
  have hword : ∀ c ∈ "/books/a%20b".toList,
      Text.isWord c = true ∨ c ∈ ['-', '.', '/', '~', '%', '+'] := fun c hc => by
    have hcheck : ("/books/a%20b".toList.all fun c =>
        Text.isWord c || ['-', '.', '/', '~', '%', '+'].contains c) = true := by
      decide +kernel
    exact (Bool.or_eq_true_iff.1 (List.all_eq_true.1 hcheck c hc)).imp_right
      List.contains_iff_mem.1
  have hstart : "/books/a%20b".toList.head? = some '/' := by simp
  ⟨hstart, hword, linkUrls_quotedPath "http://a.example/x" ": www.b.example \"/c\"" "/books/a%20b"
    hstart hword⟩

end Hypermedia.Format
