import Hypermedia.Calendar.Iso
import Hypermedia.Value

/-!
# Faults

Everything that can go wrong, by its cause. A fault that is answered to a client has a
status (`Fault.status`) and a message (`Fault.message`); some causes are shown only while
the level of detail allows it (`Detail`). Writing a value as a text is what can go wrong first
(`Value.toText`).
-/

namespace Hypermedia

/-- How much a client is told about an unexpected fault. -/
inductive Detail where
  | brief
  | full
  deriving DecidableEq, Repr

/-- Why the declared resource types are inconsistent. -/
inductive SchemaFault where
  | duplicateName (name : String)
  | samePlural (new old plural : String)
  | unknownTarget (name : String)
  deriving DecidableEq, Repr

namespace SchemaFault

/-- The message of a schema fault. -/
def message : SchemaFault → String
  | .duplicateName name => s!"Resource type {name} has already been registered"
  | .samePlural new old plural => s!"{new} and {old} have the same plural name \"{plural}\""
  | .unknownTarget name => s!"Unknown resource type {name}"

end SchemaFault

/-- Why a store refused an operation or could not perform it. -/
inductive StoreFault where
  /-- A constraint is violated; the text names it. -/
  | constraint (text : String)
  /-- The changes of one commit depend on each other in a circle. -/
  | circular
  /-- A value that no column can hold. -/
  | unbindable
  /-- A table does not exist. -/
  | noTable (name : String)
  /-- A row that was to be changed is gone. -/
  | staleRow
  /-- The record is not stored, or no longer. -/
  | notStored
  /-- The record was removed, and what it was linked to is not known any more. -/
  | detached
  /-- An earlier fault has to be rolled back first. -/
  | needsRollback
  /-- A key that a row needs would become null. -/
  | blankKey
  deriving DecidableEq, Repr

/-- Everything that can go wrong. -/
inductive Fault where
  | schema (fault : SchemaFault)
  /-- An item was not found. -/
  | notFound
  /-- Input that a client has to mend. -/
  | invalid (text : String)
  /-- The store refused, because of other records. -/
  | conflict (text : String)
  /-- The store failed. -/
  | failed (text : String)
  | unsupportedFormat (name : String)
  /-- A word that has no plural. -/
  | noPlural
  /-- A value of the right kind that is not acceptable. -/
  | badValue (text : String)
  /-- A value of the wrong kind. -/
  | badType (text : String)
  /-- A part that the value does not have. -/
  | noAttribute (text : String)
  | noKey (name : String)
  | overflow (text : String)
  /-- A text that is no decimal, or a decimal that is too large or too small. -/
  | noDecimal
  | noMemory
  | notImplemented
  | store (fault : StoreFault)
  /-- A method that the address does not have. -/
  | methodNotAllowed
  | tooLarge
  /-- A fault of the embedding application. -/
  | application (text : String)
  deriving DecidableEq, Repr

namespace StoreFault

/-- What is told about a store fault in full detail. -/
def text : StoreFault → String
  | .constraint text => text
  | .circular => "Circular dependency detected."
  | .unbindable => "Error binding parameter: type is not supported"
  | .noTable name => s!"no such table: {name}"
  | .staleRow => "The row to change is not there"
  | .notStored => "Instance is not persisted"
  | .detached => "The record is not bound to a session; its links cannot be read"
  | .needsRollback => "The transaction has been rolled back due to a previous exception"
  | .blankKey => "Dependency rule on a column tried to blank-out a primary key column"

end StoreFault

namespace Fault

/-- The answer for an item that was not found. -/
def notFoundMessage : String := "resource not found"

/-- The message that goes with a fault of the store. -/
def failedMessage (detail : Detail) (text : String) : String :=
  "Generic Error: " ++
    (match detail with
    | .full => text
    | .brief => "(debug logging disabled)")

/-- What is told about an unexpected fault in full detail. -/
def text : Fault → String
  | .schema f => f.message
  | .notFound => notFoundMessage
  | .invalid t | .conflict t | .failed t => t
  | .unsupportedFormat name => name
  | .noPlural => "the word is empty"
  | .badValue t | .badType t | .noAttribute t | .overflow t | .application t => t
  | .noKey name => Text.quoted name
  | .noDecimal => "[<class 'decimal.ConversionSyntax'>]"
  | .notImplemented | .noMemory => ""
  | .store f => f.text
  | .methodNotAllowed => "The method is not allowed for the requested URL."
  | .tooLarge => "The data value transmitted exceeds the capacity limit."

/-- The status of the answer to a request with this fault. -/
def status : Fault → Nat
  | .notFound => 404
  | .invalid _ => 400
  | .conflict _ => 409
  | .methodNotAllowed => 405
  | .tooLarge => 413
  | _ => 500

/-- The message of the answer to a request with this fault. -/
def message (detail : Detail) : Fault → String
  | .notFound => notFoundMessage
  | .invalid t => "Validation Error: " ++ t
  | .conflict t => "Conflict: " ++ t
  | .failed t => failedMessage detail t
  | .unsupportedFormat name => "Unsupported Format: " ++ name
  | .methodNotAllowed => text .methodNotAllowed
  | .tooLarge => text .tooLarge
  | f =>
    match detail with
    | .full => f.text
    | .brief => "Logging Disabled"

/-- The fault of writing an integer that has too many digits. -/
def tooLong : Fault :=
  .badValue ("Exceeds the limit (4300 digits) for integer string conversion; " ++
    "use sys.set_int_max_str_digits() to increase the limit")

end Fault

namespace Value

/-- The text of a value, which is not written if an integer in it is too long. -/
def toText (v : Value) : Except Fault String :=
  if v.isShort then .ok v.display else .error .tooLong

/-- The literal of a value, which is not written if an integer in it is too long. -/
def toLiteral (v : Value) : Except Fault String :=
  if v.isShort then .ok v.literal else .error .tooLong

end Value

end Hypermedia
