import Hypermedia.Number.Shortest
import Hypermedia.Text.Torn

/-!
# JSON documents and their texts

A document is a tree whose objects keep the order of their fields. `Json.compact` writes a
document without blanks and `Json.pretty` over indented lines; both write ASCII only, other
characters as escapes of their UTF-16 units, which a torn text may have alone.
-/

namespace Hypermedia

/-- A JSON document. Numbers keep the difference between integers and doubles. -/
inductive Json where
  | null
  | bool (b : Bool)
  | int (n : Int)
  | float (x : Binary64)
  | text (s : String)
  | torn (t : TornText)
  | array (items : List Json)
  | object (fields : List (String × Json))
  deriving Inhabited

namespace Json

/-- The escape of a UTF-16 unit. -/
def unitEscape (n : Nat) : List Char := '\\' :: 'u' :: Text.hexDigits 4 n

/-- A character of a string: the short escapes where there are any, printable ASCII as it
is, everything else by its units. -/
def charText (c : Char) : List Char :=
  if c == '"' || c == '\\' then ['\\', c]
  else if c == '\n' then ['\\', 'n']
  else if c == '\r' then ['\\', 'r']
  else if c == '\t' then ['\\', 't']
  else if c.toNat = 8 then ['\\', 'b']
  else if c.toNat = 12 then ['\\', 'f']
  else if 32 ≤ c.toNat && c.toNat < 127 then [c]
  else if c.toNat < 0x10000 then unitEscape c.toNat
  else
    let n := c.toNat - 0x10000
    unitEscape (0xd800 + n / 0x400) ++ unitEscape (0xdc00 + n % 0x400)

/-- A string with its quotes. -/
def stringText (s : String) : String :=
  String.ofList ('"' :: s.toList.flatMap charText ++ ['"'])

/-- A code point of a torn string. -/
def pointText (n : Nat) : List Char :=
  if Text.isHalf n then unitEscape n else charText (Char.ofNat n)

/-- A torn string with its quotes. -/
def tornText (t : TornText) : String :=
  String.ofList ('"' :: t.points.flatMap pointText ++ ['"'])

/-- The text of a document that is no array and no object. The integers of the documents of values
are short. -/
def leafText : Json → String
  | .null => "null"
  | .bool b => if b then "true" else "false"
  | .int n => toString n
  | .float x => x.text .document
  | .text s => stringText s
  | .torn t => tornText t
  | .array _ => "[]"
  | .object _ => "\x7b\x7d"

mutual

/-- The text of a document without blanks. -/
def compact : Json → String
  | .array items => "[" ++ ",".intercalate (compactItems items) ++ "]"
  | .object fields => "\x7b" ++ ",".intercalate (compactFields fields) ++ "\x7d"
  | v => leafText v

/-- The texts of the items of an array. -/
def compactItems : List Json → List String
  | [] => []
  | v :: r => compact v :: compactItems r

/-- The texts of the fields of an object. -/
def compactFields : List (String × Json) → List String
  | [] => []
  | (k, v) :: r => (stringText k ++ ":" ++ compact v) :: compactFields r

end

/-- A new line and the blanks before what stands on it. -/
def newLine (blanks : Nat) : String := "\n" ++ String.ofList (List.replicate blanks ' ')

mutual

/-- The text of a document with an item or a field on each line, `step` blanks deeper than
its array or object, which stands `depth` blanks deep. -/
def prettyAt (step depth : Nat) : Json → String
  | .array (v :: r) =>
    let line := newLine (depth + step)
    "[" ++ line ++ ("," ++ line).intercalate (prettyItems step (depth + step) (v :: r)) ++
      newLine depth ++ "]"
  | .object (f :: r) =>
    let line := newLine (depth + step)
    "\x7b" ++ line ++ ("," ++ line).intercalate (prettyFields step (depth + step) (f :: r)) ++
      newLine depth ++ "\x7d"
  | v => leafText v

/-- The texts of the items of an array. -/
def prettyItems (step depth : Nat) : List Json → List String
  | [] => []
  | v :: r => prettyAt step depth v :: prettyItems step depth r

/-- The texts of the fields of an object. -/
def prettyFields (step depth : Nat) : List (String × Json) → List String
  | [] => []
  | (k, v) :: r => (stringText k ++ ": " ++ prettyAt step depth v) :: prettyFields step depth r

end

/-- The text of a document over indented lines. -/
def pretty (step : Nat) (v : Json) : String := prettyAt step 0 v

end Json

end Hypermedia
