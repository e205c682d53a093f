import Hypermedia.Route.Table

/-!
# Addresses

A place is a pattern of addresses that is served, without the suffix of a format or with
one. `Place.match?` reads an address by a place: it binds the ids and the suffix. An id is
not empty and has no slash and no dot, so an address is read in at most one way.

When several places read an address their order counts (`Place.rank`): text goes before
ids, the place whose text goes on for longer first.
-/

namespace Hypermedia

/-- A pattern of addresses that is served with these methods. -/
structure Place (α : Type) where
  pattern : Pattern
  hasSuffix : Bool
  methods : List Method
  /-- What serves the addresses. -/
  target : α

/-- What an address says: the ids by their parameters, and the suffix. -/
structure Match where
  params : Scope.Params
  suffix : Option String
  deriving Inhabited

namespace Pattern

/-- Can a character stand in an id? -/
def isIdChar (c : Char) : Bool := c != '/' && c != '.'

/-- Read the pieces of a pattern from the front of a text. The ids and the rest of the text
are given back. -/
def read? : Pattern → List Char → Option (Scope.Params × List Char)
  | [], s => some ([], s)
  | .text t :: r, s =>
    if t.toList.isPrefixOf s then read? r (s.drop t.toList.length) else none
  | .id param :: r, '/' :: s =>
    let id := s.takeWhile isIdChar
    if id.isEmpty then none
    else
      (read? r (s.dropWhile isIdChar)).map fun x =>
        ((param, .text (String.ofList id)) :: x.1, x.2)
  | .id _ :: _, _ => none

/-- Has a pattern no ids? -/
def isFixed (pattern : Pattern) : Bool := (params pattern).isEmpty

end Pattern

namespace Place

variable {α : Type}

/-- The suffix that a rest of an address is. -/
def suffix? : List Char → Option String
  | '.' :: s => if s.isEmpty || s.contains '/' then none else some (String.ofList s)
  | _ => none

/-- Read an address. After a text without ids a slash may follow, or be missing. -/
def match? (p : Place α) (address : List Char) : Option Match :=
  if p.hasSuffix then do
    let (params, rest) ← Pattern.read? p.pattern address
    let suffix ← suffix? rest
    pure { params, suffix := some suffix }
  else
    match Pattern.read? p.pattern address with
    | some (params, []) => some { params, suffix := none }
    | some (params, ['/']) =>
      if Pattern.isFixed p.pattern then some { params, suffix := none } else none
    | _ =>
      if Pattern.isFixed p.pattern && (Pattern.spelling p.pattern).toList == address ++ ['/'] then
        some { params := [], suffix := none }
      else none

/-- The form of the addresses: every id and the suffix is marked. -/
def form (p : Place α) : List Char :=
  (p.pattern.flatMap fun piece =>
    match piece with
    | .text t => t.toList
    | .id _ => ['/', '<']) ++ if p.hasSuffix then ['.', '<'] else []

/-- The part of a form from the last slash before the first mark. -/
def openPart (form : List Char) : List Char :=
  let isOpen (c : Char) : Bool := c != '<'
  let before := form.takeWhile isOpen
  (before.reverse.takeWhile (· != '/')).reverse ++ form.dropWhile isOpen

/-- The lengths of the texts between slashes and marks. -/
def textLengths (form : List Char) : List Nat :=
  let separated := form.map fun c => if c == '<' then '/' else c
  ((Naming.splitOn '/' separated).map List.length).filter (0 < ·)

/-- The rank of a place; smaller ranks go first. Text without ids has the smallest. -/
def rank (p : Place α) : List Int :=
  let form := p.form
  if form.contains '<' then
    let slashes := (form.takeWhile (· != '<')).count '/'
    let lengths := textLengths (openPart form)
    ([slashes, lengths.length] ++ lengths ++ [(openPart form).count '<']).map fun n : Nat =>
      -(n : Int)
  else []

/-- Does a rank go before another, or are they equal? -/
def rankLe : List Int → List Int → Bool
  | [], _ => true
  | _ :: _, [] => false
  | a :: as, b :: bs => a < b || (a == b && rankLe as bs)

/-- The places in the order in which they are tried; of equal ones the first goes first. -/
def order (places : List (Place α)) : List (Place α) :=
  places.mergeSort fun p q => rankLe p.rank q.rank

/-- Is an address read without a slash too many or too few? -/
def isExact (p : Place α) (address : List Char) : Bool :=
  p.hasSuffix || (Pattern.read? p.pattern address).any fun x => x.2.isEmpty

/-- The places that read an address with what they read, in the order in which they are
tried. -/
def candidates (places : List (Place α)) (address : List Char) :
    List (Place α × Match) :=
  let found := (order places).filterMap fun p => (p.match? address).map fun x => (p, x)
  found.filter (fun x => x.1.isExact address) ++ found.filter fun x => !x.1.isExact address

/-- The names of the methods that a place serves. Where something can be read, so can its
headers alone, and everywhere one can ask what is served. -/
def methodNames (p : Place α) : List String :=
  (if p.methods.contains .get then ["HEAD"] else []) ++ p.methods.map Method.name ++ ["OPTIONS"]

end Place

end Hypermedia
