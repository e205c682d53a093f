import Hypermedia.Fault
import Hypermedia.Fields
import Hypermedia.Schema.Descriptor
import Hypermedia.Text.Case
import Hypermedia.Validation.Errors

/-!
# Rules about one field

A rule looks at one field of an entity and gives a verdict: nothing, or the messages for
some fields. Types name the rules that their entities have to satisfy; a rule book says
what the names mean.
-/

namespace Hypermedia

namespace Test

/-- The code points of the operand of a test of texts. -/
def textOperand (operand : Value) : Except Fault (List Nat) :=
  match operand with
  | .text s => .ok (Text.points s)
  | .torn t => .ok t.points
  | v => .error (.badType s!"a text was expected, not {Conversion.kindName v}")

/-- Does a text occur in another? -/
def occurs (part : List Nat) : List Nat → Bool
  | [] => part.isEmpty
  | c :: r => part.isPrefixOf (c :: r) || occurs part r

/-- Does a value pass the test against an operand? The tests of texts fail for other
values. -/
def holds (test : Test) (v operand : Value) : Except Fault Bool :=
  match test, v with
  | .always, _ => .ok true
  | .falsy, v => .ok (!v.truthy)
  | .truthy, v => .ok v.truthy
  | .equals, v => .ok (v == operand)
  | .startsWith, .text s => (textOperand operand).map fun p => p.isPrefixOf (Text.points s)
  | .startsWith, .torn t => (textOperand operand).map fun p => p.isPrefixOf t.points
  | .contains, .text s => (textOperand operand).map fun p => occurs p (Text.points s)
  | .contains, .torn t => (textOperand operand).map fun p => occurs p t.points
  | .shouting, .text s => .ok (Text.isShouting s)
  | .shouting, .torn t => .ok (Text.isShouting t.display)
  | _, _ => .ok false

/-- The test of a name. -/
def ofName? (s : String) : Option Test :=
  (([("always", .always), ("falsy", .falsy), ("truthy", .truthy), ("eq", .equals),
    ("startswith", .startsWith), ("contains", .contains), ("isupper", .shouting)] :
      List (String × Test)).find? fun p => p.1 == s).map (·.2)

end Test

/-- A rule about a field: the verdict on the field's value. -/
structure Rule where
  field : String
  verdict : Value → Except Fault Value

namespace Rule

/-- A rule that gives a fixed verdict when a condition holds. -/
def when (c : Condition) (verdict : Value) : Rule where
  field := c.field
  verdict v := (c.test.holds v c.operand).map fun b => if b then verdict else .null

end Rule

/-- What the names of rules mean. -/
abbrev RuleBook := List (String × Rule)

namespace RuleBook

/-- The rule of a name. -/
def get (book : RuleBook) (name : String) : Except Fault Rule :=
  match Fields.get? name book with
  | some rule => .ok rule
  | none => .error (.noKey name)

end RuleBook

end Hypermedia
