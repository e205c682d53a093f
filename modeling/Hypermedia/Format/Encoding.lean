import Hypermedia.Fault
import Hypermedia.Json.Document

/-!
# Values as documents

The document of a value: dates, times, durations and identifiers by their texts, decimals
as the nearest double and bytes in hexadecimal digits. A foreign value shows its text in
full detail and otherwise that it cannot be shown.
-/

namespace Hypermedia.Format

/-- What stands for a value that cannot be shown. -/
def hiddenObject : Json := .object [("error", .text "HyperJSONProvider invalid object")]

/-- The hexadecimal digits of bytes. -/
def hexText (b : List UInt8) : String :=
  String.ofList (b.flatMap fun x => Text.hexDigits 2 x.toNat)

mutual

/-- The document of a value. A signalling NaN has none, and no integer that is too long. -/
def document (detail : Detail) : Value → Except Fault Json
  | .null => .ok .null
  | .bool b => .ok (.bool b)
  | .int n => if Reading.isShort n then .ok (.int n) else .error .tooLong
  | .float x => .ok (.float x)
  | .decimal d =>
    match d.toBinary64? with
    | some x => .ok (.float x)
    | none => .error (.badValue "cannot convert signaling NaN to float")
  | .text s => .ok (.text s)
  | .torn t => .ok (.torn t)
  | .bytes b => .ok (.text (hexText b))
  | .date d => .ok (.text d.text)
  | .time t => .ok (.text t.text)
  | .dateTime d => .ok (.text (d.text " "))
  | .duration d => .ok (.text d.text)
  | .uuid u => .ok (.text u.text)
  | .foreign _ s =>
    .ok
      (match detail with
      | .full => .text s
      | .brief => hiddenObject)
  | .list items => (documents detail items).map .array
  | .object fields => (fieldDocuments detail fields).map .object

/-- The documents of the items of a list. -/
def documents (detail : Detail) : List Value → Except Fault (List Json)
  | [] => .ok []
  | v :: r => do
    let d ← document detail v
    let ds ← documents detail r
    .ok (d :: ds)

/-- The documents of the fields of an object. -/
def fieldDocuments (detail : Detail) :
    List (String × Value) → Except Fault (List (String × Json))
  | [] => .ok []
  | (k, v) :: r => do
    let d ← document detail v
    let ds ← fieldDocuments detail r
    .ok ((k, d) :: ds)

end

/-- A value as a text without blanks. -/
def compact (detail : Detail) (v : Value) : Except Fault String :=
  (document detail v).map Json.compact

mutual

/-- The value of a document. -/
def ofDocument : Json → Value
  | .null => .null
  | .bool b => .bool b
  | .int n => .int n
  | .float x => .float x
  | .text s => .text s
  | .torn t => .torn t
  | .array items => .list (ofDocuments items)
  | .object fields => .object (ofFieldDocuments fields)

/-- The values of the items of an array. -/
def ofDocuments : List Json → List Value
  | [] => []
  | d :: r => ofDocument d :: ofDocuments r

/-- The values of the fields of an object. -/
def ofFieldDocuments : List (String × Json) → List (String × Value)
  | [] => []
  | (k, d) :: r => (k, ofDocument d) :: ofFieldDocuments r

end

end Hypermedia.Format
