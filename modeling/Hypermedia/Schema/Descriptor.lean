import Hypermedia.Fault

/-!
# Descriptors of resource types

A resource type is described by its properties, its relationships to other types, the
finders that lead from one of its records to others, and the rules that its entities have
to satisfy. `merge` combines the descriptors of a supertype with those of a subtype.
-/

namespace Hypermedia

/-- The member of an enumeration that a value names. -/
def namedMember {α : Type} (kind : String) (ofName? : String → Option α) (v : Value) :
    Except Fault α :=
  let named? :=
    match v with
    | .text s => ofName? s
    | _ => none
  match named? with
  | some a => .ok a
  | none => do
    let literal ← v.toLiteral
    .error (.badValue s!"{literal} is not a valid {kind}")

/-- May clients read, or write, something? -/
inductive Visibility where
  | shown
  | hidden
  deriving DecidableEq, Repr, Inhabited

namespace Visibility

/-- The name of a visibility. -/
def name : Visibility → String
  | .shown => "public"
  | .hidden => "private"

/-- The visibility of a name. -/
def ofName? (s : String) : Option Visibility :=
  if s == "public" then some .shown else if s == "private" then some .hidden else none

/-- The visibility that a value names. -/
def ofValue (v : Value) : Except Fault Visibility := namedMember "Visibility" ofName? v

end Visibility

/-- Does a relationship lead to one record or to many? -/
inductive Cardinality where
  | one
  | many
  deriving DecidableEq, Repr, Inhabited

namespace Cardinality

/-- The name of a cardinality. -/
def name : Cardinality → String
  | .one => "one"
  | .many => "many"

/-- The cardinality of a name. -/
def ofName? (s : String) : Option Cardinality :=
  if s == "one" then some .one else if s == "many" then some .many else none

/-- The cardinality that a value names. -/
def ofValue (v : Value) : Except Fault Cardinality := namedMember "Cardinality" ofName? v

end Cardinality

/-- A class of records. The lineage holds the number of the class and the numbers of the
classes that it extends, nearest first. -/
structure RecordClass where
  name : String
  lineage : List Nat
  deriving DecidableEq, Repr, Inhabited

namespace RecordClass

/-- The number of the class itself. -/
def number? (c : RecordClass) : Option Nat := c.lineage.head?

end RecordClass

/-- What a relationship or a finder leads to: a type by its name, or the type of a class. -/
inductive Target where
  | named (name : String)
  | model (model : RecordClass)
  deriving DecidableEq, Repr, Inhabited

/-- A property of a resource type. -/
structure Property where
  name : String
  reader : Visibility := .shown
  writer : Visibility := .shown
  required : Bool := false
  deriving DecidableEq, Repr, Inhabited

/-- A relationship from a resource type to another. -/
structure Relationship where
  name : String
  target : Target
  cardinality : Cardinality := .many
  inverse : Option String := none
  reader : Visibility := .shown
  writer : Visibility := .shown
  required : Bool := false
  deriving DecidableEq, Repr, Inhabited

namespace Property

/-- May clients read the property? -/
def isReadable (p : Property) : Bool := p.reader == .shown

/-- May clients write the property? -/
def isWritable (p : Property) : Bool := p.writer == .shown

end Property

namespace Relationship

/-- Does the relationship lead to many records? -/
def isMany (r : Relationship) : Bool := r.cardinality == .many

/-- May clients follow the relationship? -/
def isReadable (r : Relationship) : Bool := r.reader == .shown

/-- May clients change the relationship? -/
def isWritable (r : Relationship) : Bool := r.writer == .shown

end Relationship

/-- A test of one value. -/
inductive Test where
  | always
  | falsy
  | truthy
  | equals
  | startsWith
  | contains
  | shouting
  deriving DecidableEq, Repr, Inhabited

/-- A test of a field against an operand. -/
structure Condition where
  field : String
  test : Test
  operand : Value

/-- How a finder finds records: those in an attribute of the record, or the record itself,
of them those that satisfy a condition, in reverse order or not. The plain rule is for
records that can be iterated over. -/
inductive FinderRule where
  | plain
  | select (source : Option String) (filter : Option Condition) (reversed : Bool)
  deriving Inhabited

/-- A named rule that leads from a record to others. -/
structure Finder where
  name : String
  target : Target
  rule : FinderRule := .plain
  deriving Inhabited

/-- When the rules of a type are checked: always, or by the method of a request. -/
inductive Context where
  | default
  | create
  | update
  | destroy
  deriving DecidableEq, Repr, Inhabited

namespace Context

/-- All contexts. -/
def all : List Context := [.default, .create, .update, .destroy]

/-- The name of a context. -/
def name : Context → String
  | .default => "default"
  | .create => "create"
  | .update => "update"
  | .destroy => "destroy"

/-- The context of a name. -/
def ofName? (s : String) : Option Context := all.find? fun c => c.name == s

/-- The context that a value names. -/
def ofValue (v : Value) : Except Fault Context := namedMember "ValidationContext" ofName? v

end Context

/-- A rule, by its name, with the set of contexts in which it is checked. -/
structure Validator where
  rule : String
  default : Bool
  create : Bool
  update : Bool
  destroy : Bool
  deriving DecidableEq, Repr, Inhabited

namespace Validator

/-- A rule with the contexts of a list. -/
def of (rule : String) (contexts : List Context) : Validator :=
  { rule, default := contexts.contains .default, create := contexts.contains .create
    update := contexts.contains .update, destroy := contexts.contains .destroy }

/-- Is the rule checked in the context? -/
def applies (v : Validator) : Context → Bool
  | .default => v.default
  | .create => v.create
  | .update => v.update
  | .destroy => v.destroy

/-- The contexts of the rule. -/
def contexts (v : Validator) : List Context := Context.all.filter v.applies

end Validator

/-- Things that have a name. -/
class Named (α : Type) where
  nameOf : α → String

instance : Named Property := ⟨Property.name⟩
instance : Named Relationship := ⟨Relationship.name⟩
instance : Named Finder := ⟨Finder.name⟩

variable {α : Type} [Named α]

/-- The last descriptor of a name. -/
def lastNamed? (name : String) (ds : List α) : Option α :=
  ds.foldl (fun found d => if Named.nameOf d == name then some d else found) none

/-- Put own descriptors in the places of the inherited ones of their names; an own name that
has been used once is not used for a second inherited one. The second part holds the names
that were not used. -/
def refine (own : List α) : List String → List α → List α × List String
  | unused, [] => ([], unused)
  | unused, d :: r =>
    let name := Named.nameOf d
    if unused.contains name then
      let (ds, left) := refine own (unused.filter (· != name)) r
      ((lastNamed? name own).getD d :: ds, left)
    else
      let (ds, left) := refine own unused r
      (d :: ds, left)

/-- The descriptors of a subtype: the inherited ones keep their places, an own descriptor
refines the inherited one of its name, and the other own descriptors follow. -/
def merge (inherited own : List α) : List α :=
  let (ds, unused) := refine own (own.map Named.nameOf) inherited
  ds ++ own.filter fun d => unused.contains (Named.nameOf d)

end Hypermedia
