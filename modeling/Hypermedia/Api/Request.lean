import Hypermedia.Format.Encoding
import Hypermedia.Json.Reader
import Hypermedia.Naming
import Hypermedia.Settings
import Hypermedia.Text.Percent

/-!
# Requests

A request has a method, an address and a body. The address is a path, possibly with a query
after it; both are read with their percent escapes. The body has to be a JSON object
(`Request.payload`), whatever type of content the client says it is.
-/

namespace Hypermedia

/-- A request with its address read. -/
structure Request where
  method : String
  path : List Char
  /-- The names that the query gives something to. -/
  queryNames : List String
  body : String
  deriving Inhabited

namespace Request

/-- The text before a character, and what follows the character. -/
def cut (separator : Char) (s : List Char) : List Char × List Char :=
  (s.takeWhile (· != separator), (s.dropWhile (· != separator)).drop 1)

/-- A path begins with one slash, unless it is empty. -/
def rooted (path : List Char) : List Char :=
  if path.isEmpty then [] else '/' :: path.dropWhile (· == '/')

/-- The name that a part of a query gives something to. -/
def queryName (part : List Char) : String :=
  let spaced := (cut '=' part).1.map fun c => if c == '+' then ' ' else c
  String.ofList (Text.percentDecode spaced)

/-- A request to an address. What follows a number sign is not sent. -/
def ofAddress (method address body : String) : Request :=
  let (path, query) := cut '?' (cut '#' address.toList).1
  { method := String.ofList (method.toList.map Char.toUpper)
    path := rooted (Text.percentDecode path)
    queryNames := ((Naming.splitOn '&' query).filter fun p => !p.isEmpty).map queryName
    body }

/-- Is only the head of the answer wanted? -/
def isHead (r : Request) : Bool := r.method == "HEAD"

/-- The mark that a text may begin with to show how it is encoded. -/
def orderMark : Char := Char.ofNat 0xFEFF

/-- A text without the mark at its beginning. -/
def unmarked (s : String) : String :=
  match s.toList with
  | c :: r => if c == orderMark then String.ofList r else s
  | [] => s

/-- Is the body longer than the settings allow? -/
def isTooLarge (settings : Settings) (r : Request) : Bool :=
  match settings.get "MAX_CONTENT_LENGTH" with
  | .int n => n < r.body.utf8ByteSize
  | _ => false

/-- The fields of the body. -/
def payload (settings : Settings) (r : Request) : Except Fault (List (String × Value)) :=
  if r.isTooLarge settings then .error .tooLarge
  else
    match ((Json.read? (unmarked r.body)).map Format.ofDocument).getD .null with
    | .object fields => .ok fields
    | v => .error (.invalid s!"Invalid JSON Payload : {v.display}")

end Request

end Hypermedia
