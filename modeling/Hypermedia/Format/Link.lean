import Hypermedia.Text.Markup
import Hypermedia.Text.Word

/-!
# Links in a page

`linkUrls` writes a text so that it can stand in a page, with its addresses as links. An
address is absolute (a scheme, or `www.`, or a user before an `@`, then a host), or a path
that stands between double quotes and begins with a slash.

Every class of characters below ends where the next part of an address begins, so each part
takes as many characters as it can and never has to give one back; `addressLength?` is the
longest reading of an address at one place, and `cut` finds addresses from left to right.
-/

namespace Hypermedia.Format

/-- Letters of a scheme. -/
def isSchemeChar (c : Char) : Bool := c.isAlpha

/-- Characters of a user. -/
def isUserChar (c : Char) : Bool := "-;:&=+$,".toList.contains c || Text.isWord c

/-- Characters of a host. -/
def isHostChar (c : Char) : Bool := c.isAlphanum || c == '.' || c == '-'

/-- Characters of the path of an absolute address. -/
def isPathChar (c : Char) : Bool := "+~%/.-".toList.contains c || Text.isWord c

/-- Characters of a query. -/
def isQueryChar (c : Char) : Bool := "-+=&;%@.".toList.contains c || Text.isWord c

/-- The number of characters of a class at the start of a text. -/
def run (p : Char → Bool) (s : List Char) : Nat := (s.takeWhile p).length

/-- The length of a character that may stand at the start of a text. -/
def optional (c : Char) (s : List Char) : Nat := if s.head? == some c then 1 else 0

/-- The length of a user with its `@`, if one is at the start. -/
def userLength? (s : List Char) : Option Nat :=
  let n := run isUserChar s
  if n ≠ 0 && s[n]? == some '@' then some (n + 1) else none

/-- The length of a host, if one is at the start. -/
def hostLength? (s : List Char) : Option Nat :=
  let n := run isHostChar s
  if n = 0 then none else some n

/-- The length of a number after a colon, with the colon. -/
def numberLength (s : List Char) : Nat :=
  match s with
  | ':' :: r =>
    let n := run Char.isDigit r
    if n = 0 then 0 else n + 1
  | _ => 0

/-- The length of the path, query and fragment that follow a host. -/
def tailLength (s : List Char) : Nat :=
  let path :=
    match s with
    | '/' :: r => run isPathChar r + 1
    | _ => 0
  let s := s.drop path
  let mark := optional '?' s
  let s := s.drop mark
  let query := run isQueryChar s
  let s := s.drop query
  let hash := optional '#' s
  path + mark + query + hash + run Text.isWord (s.drop hash)

/-- The length of a host after a user that may be missing: with the user if a host follows
it, else without. -/
def userHostLength? (s : List Char) : Option Nat :=
  let alone := hostLength? s
  match userLength? s with
  | some u =>
    match hostLength? (s.drop u) with
    | some h => some (u + h)
    | none => alone
  | none => alone

/-- The length of an address that begins with a scheme of three to nine letters. -/
def schemeLength? (s : List Char) : Option Nat := do
  let n := run isSchemeChar s
  if n < 3 || 9 < n || s[n]? != some ':' then none
  let r := s.drop (n + 1)
  let slashes := if "//".toList.isPrefixOf r then 2 else 0
  let r := r.drop slashes
  let host ← userHostLength? r
  let r := r.drop host
  let number := numberLength r
  some (n + 1 + slashes + host + number + tailLength (r.drop number))

/-- The length of an address that begins with `www.` or a user. -/
def bareLength? (s : List Char) : Option Nat :=
  let after (n : Nat) : Option Nat := do
    let h ← hostLength? (s.drop n)
    some (n + h + tailLength (s.drop (n + h)))
  let www := if "www.".toList.isPrefixOf s then after 4 else none
  match www with
  | some n => some n
  | none => (userLength? s).bind after

/-- The length of a path between quotes. -/
def pathLength? (before : Option Char) (s : List Char) : Option Nat :=
  match s with
  | '/' :: r =>
    let n := run isPathChar r
    if before == some '"' && r[n]? == some '"' then some (n + 1) else none
  | _ => none

/-- The length of the address at the start of a text, after the character `before`. -/
def addressLength? (before : Option Char) (s : List Char) : Option Nat :=
  match schemeLength? s with
  | some n => some n
  | none =>
    match bareLength? s with
    | some n => some n
    | none => pathLength? before s

/-- A part of a text: a character or an address. -/
inductive Piece where
  | char (c : Char)
  | address (s : List Char)
  deriving DecidableEq, Repr

/-- Cut a text into addresses and the characters between them, from left to right. -/
def cut (before : Option Char) (s : List Char) : List Piece :=
  match s with
  | [] => []
  | c :: r =>
    match addressLength? before (c :: r) with
    | some (n + 1) =>
      .address ((c :: r).take (n + 1)) :: cut ((c :: r).take (n + 1)).getLast? (r.drop n)
    | _ => .char c :: cut (some c) r
termination_by s.length
decreasing_by
  all_goals
    simp only [List.length_cons, List.length_drop]
    omega

/-- A link to an address that shows the address. -/
def anchor (s : List Char) : List Char :=
  let e := Text.escapeChars s
  "<a href=\"".toList ++ e ++ "\">".toList ++ e ++ "</a>".toList

/-- A part as it is written in a page. -/
def Piece.markup : Piece → List Char
  | .char c => Text.escapeChar c
  | .address s => anchor s

/-- The characters of a text as they are written in a page, with links. -/
def linkChars (s : List Char) : List Char := (cut none s).flatMap Piece.markup

/-- A text as it is written in a page, with links. -/
def linkUrls (s : String) : String := String.ofList (linkChars s.toList)

end Hypermedia.Format
