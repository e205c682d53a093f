import Hypermedia.Column

/-!
# Errors of validation

Errors bind the names of fields to lists of messages, in order. `Errors.merge` puts several
together: fields and messages stay in the order of their first occurrence and no message is
repeated. `Errors.ofVerdict` reads the verdict of a rule, which may give one message or
several for a field.
-/

namespace Hypermedia

/-- Messages by the fields that they are about. -/
abbrev Errors := List (String × List String)

namespace Errors

variable {α : Type} [BEq α]

/-- Add the messages that are not there yet. -/
def addMessages (old : List α) : List α → List α
  | [] => old
  | x :: r => addMessages (if old.contains x then old else old ++ [x]) r

/-- Add messages for a field. -/
def addField (field : String) (messages : List α) :
    List (String × List α) → List (String × List α)
  | [] => [(field, addMessages [] messages)]
  | (f, ms) :: r =>
    if f == field then (f, addMessages ms messages) :: r
    else (f, ms) :: addField field messages r

/-- Add all messages of some errors. -/
def append (old new : List (String × List α)) : List (String × List α) :=
  new.foldl (fun es e => addField e.1 e.2 es) old

/-- Put errors together. -/
def merge (parts : List (List (String × List α))) : List (String × List α) :=
  parts.foldl append []

/-- Add messages for a field, whether they are there or not. -/
def note (field : String) (messages : List α) :
    List (String × List α) → List (String × List α)
  | [] => [(field, messages)]
  | (f, ms) :: r =>
    if f == field then (f, ms ++ messages) :: r else (f, ms) :: note field messages r

/-- The parts of a value that can be gone through one by one. -/
def items : Value → Except Fault (List Value)
  | .text s => .ok (s.toList.map fun c => .text (String.singleton c))
  | .torn t => .ok (t.points.map fun n => .ofPoints [n])
  | .list vs => .ok vs
  | .object fields => .ok (fields.map fun f => .text f.1)
  | .bytes b => .ok (b.map fun x => .int x.toNat)
  | v => .error (.badType s!"'{Conversion.kindName v}' object is not iterable")

/-- The messages that a rule gives for a field: a text is one message. -/
def messages : Value → Except Fault (List String)
  | .text s => .ok [s]
  | .torn t => .ok [t.display]
  | v => do
    let vs ← items v
    vs.mapM Value.toText

/-- The fields of a value. -/
def fieldsOf : Value → Except Fault (List (String × Value))
  | .object fields => .ok fields
  | v => .error (.noAttribute s!"'{Conversion.kindName v}' object has no attribute 'items'")

/-- The errors that a rule reports; no verdict and empty messages report nothing. -/
def ofVerdict (verdict : Value) : Except Fault Errors :=
  if !verdict.truthy then .ok []
  else do
    let fields ← fieldsOf verdict
    (fields.filter fun f => f.2.truthy).mapM fun f => do
      let ms ← messages f.2
      pure (f.1, ms)

/-- Errors as a value. -/
def toValue (es : Errors) : Value :=
  .object (es.map fun e => (e.1, .list (e.2.map .text)))

/-- Put together errors whose messages are any values. -/
def mergeValues (parts : List Value) : Except Fault Value := do
  let parts ← parts.mapM fun part => do
    let fields ← fieldsOf part
    fields.mapM fun f => do
      let ms ← items f.2
      pure (f.1, ms)
  pure (.object ((merge parts).map fun e => (e.1, .list e.2)))

end Errors

end Hypermedia
