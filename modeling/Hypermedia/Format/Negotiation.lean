import Hypermedia.Column
import Hypermedia.Format.Encoding
import Hypermedia.Format.Link
import Hypermedia.Settings

/-!
# Formats of answers

The format of an answer is the suffix of the address: none or `json` for a document,
`json.html` for a page that shows the document over indented lines with its addresses as
links. `Negotiation.choose` reads a suffix, `Negotiation.render` writes a value in the
chosen format.
-/

namespace Hypermedia

/-- The formats that answers are written in. -/
inductive Format where
  | json
  | page
  deriving DecidableEq, Repr

namespace Format

/-- The suffix of the format. -/
def name : Format → String
  | .json => "json"
  | .page => "json.html"

/-- The format of a suffix. -/
def ofName? (s : String) : Option Format :=
  if s == "json" then some .json else if s == "json.html" then some .page else none

/-- The type of content with its character set. -/
def contentType : Format → String
  | .json => "application/json"
  | .page => "text/html; charset=utf-8"

end Format

/-- An answer to a request. The type of its content is not among the headers. -/
structure Response where
  status : Nat
  contentType : String
  headers : List (String × String)
  body : String
  deriving DecidableEq, Repr

namespace Negotiation

/-- The format that an address asks for. Without a suffix it is the one that the settings
name, whatever that is. -/
def choose (settings : Settings) : Option String → Except Fault Value
  | none =>
    let v := settings.get "DEFAULT_FORMAT"
    .ok (if v.truthy then v else .text Format.json.name)
  | some s => if (Format.ofName? s).isSome then .ok (.text s) else .error (.unsupportedFormat s)

/-- The format of an answer about a fault: the one that is asked for, if there is such a
format. -/
def forFault (suffix : Option String) : Format :=
  (suffix.bind Format.ofName?).getD .json

/-- The page around a document. -/
def page (body : String) : String :=
  "<html>\n  <head>\n    <script src=\"https://cdn.jsdelivr.net/gh/google/code-prettify@master/" ++
    "loader/run_prettify.js?lang=json\"></script>\n  </head>\n  <body>\n" ++
    "    <pre class=\"prettyprint\">\n" ++ body ++ "\n    </pre>\n  </body>\n</html>\n"

/-- The text of a value in a format. -/
def text (settings : Settings) (detail : Detail) (v : Value) : Format → Except Fault String
  | .json => Format.compact detail v
  | .page => do
    let indent ← Conversion.toInt (settings.get "PRETTY_INDENT")
    let d ← Format.document detail v
    .ok (page (Format.linkUrls (d.pretty indent.toNat)))

/-- A value as an answer in a format. The type of the content is that of the format,
whatever the headers say. -/
def render (settings : Settings) (detail : Detail) (v : Value) (format : Format)
    (status : Nat) (headers : List (String × String)) : Except Fault Response := do
  let body ← text settings detail v format
  let headers := headers.filter fun h => h.1.toLower != "content-type"
  .ok { status, contentType := format.contentType, headers, body }

/-- A value as an answer in the format of a name. -/
def renderAs (settings : Settings) (detail : Detail) (v : Value) (format : Value)
    (status : Nat) (headers : List (String × String)) : Except Fault Response :=
  match format with
  | .text s =>
    match Format.ofName? s with
    | some f => render settings detail v f status headers
    | none => .error (.noKey s)
  | .list _ | .object _ => .error (.badType s!"unhashable type: '{Conversion.kindName format}'")
  | v => .error (.noKey v.literal)

/-- An answer without content. -/
def empty (status : Nat) (headers : List (String × String)) : Response :=
  { status, contentType := Format.page.contentType, headers, body := "" }

end Negotiation

end Hypermedia
