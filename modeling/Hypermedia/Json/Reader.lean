import Hypermedia.Json.Document
import Hypermedia.Number.Reading

/-!
# Reading JSON documents

`Json.read?` reads a whole text as one document. Beyond the grammar of JSON it accepts the
names `NaN`, `Infinity` and `-Infinity` as numbers; of fields with one name the last value
counts, at the place of the first. Integers of more than `Reading.maxDigits` digits are refused.
The name of a field has no halves of characters: it has the replacement character for each.

Every reader takes the rest of the text and gives back what is left of it. The readers of
values call one another with less fuel each time, and the length of the text is enough of
it.
-/

namespace Hypermedia.Json

/-- Blanks between the parts of a document. -/
def isBlank (c : Char) : Bool := c == ' ' || c == '\t' || c == '\n' || c == '\r'

/-- The text after its leading blanks. -/
def skipBlanks (s : List Char) : List Char := s.dropWhile isBlank

/-- Read four hexadecimal digits. -/
def unit? : List Char → Option (Nat × List Char)
  | a :: b :: c :: d :: r => do
    let a ← Text.hexValue? a
    let b ← Text.hexValue? b
    let c ← Text.hexValue? c
    let d ← Text.hexValue? d
    some (((a * 16 + b) * 16 + c) * 16 + d, r)
  | _ => none

/-- The character of an escape of one letter. -/
def letterEscape? (c : Char) : Option Char :=
  if c == '"' || c == '\\' || c == '/' then some c
  else if c == 'b' then some (Char.ofNat 8)
  else if c == 'f' then some (Char.ofNat 12)
  else if c == 'n' then some '\n'
  else if c == 'r' then some '\r'
  else if c == 't' then some '\t'
  else none

/-- Read the rest of an escape of a unit. Two units that form a pair are one code point; a unit
that lacks its partner is one by itself. -/
def unitEscape? (r : List Char) : Option (Nat × List Char) := do
  let (n, r) ← unit? r
  if 0xd800 ≤ n && n < 0xdc00 then
    match r with
    | '\\' :: 'u' :: r' =>
      match unit? r' with
      | some (m, r'') =>
        if 0xdc00 ≤ m && m < 0xe000 then
          some (0x10000 + (n - 0xd800) * 0x400 + (m - 0xdc00), r'')
        else some (n, r)
      | none => some (n, r)
    | _ => some (n, r)
  else some (n, r)

/-- Read a string after its opening quote; `seen` holds its code points in reverse. -/
def stringFrom? : Nat → List Nat → List Char → Option (List Nat × List Char)
  | 0, _, _ => none
  | fuel + 1, seen, s =>
    match s with
    | [] => none
    | '"' :: r => some (seen.reverse, r)
    | '\\' :: 'u' :: r => do
      let (n, r) ← unitEscape? r
      stringFrom? fuel (n :: seen) r
    | '\\' :: c :: r => do
      let c ← letterEscape? c
      stringFrom? fuel (c.toNat :: seen) r
    | c :: r => if c.toNat < 32 then none else stringFrom? fuel (c.toNat :: seen) r

/-- Read a string after its opening quote, as its code points. -/
def string? (s : List Char) : Option (List Nat × List Char) := stringFrom? (s.length + 1) [] s

/-- The document of a string. -/
def ofPoints (points : List Nat) : Json :=
  match TornText.of? points with
  | some t => .torn t
  | none => .text (Text.ofPoints points)

/-- The number of a list of digits. -/
def natOf (digits : List Char) : Nat := digits.foldl (fun n c => 10 * n + (c.toNat - 48)) 0

/-- Does the text begin with these characters? What is left after them. -/
def after? : List Char → List Char → Option (List Char)
  | [], r => some r
  | c :: cs, d :: r => if c == d then after? cs r else none
  | _ :: _, [] => none

/-- The digits of a fraction, with the text after them. -/
def fractionPart (s : List Char) : List Char × List Char :=
  match s with
  | '.' :: r =>
    let ds := r.takeWhile Char.isDigit
    if ds.isEmpty then ([], s) else (ds, r.dropWhile Char.isDigit)
  | _ => ([], s)

/-- The value of an exponent, with the text after it. -/
def exponentPart (s : List Char) : Option Int × List Char :=
  match s with
  | e :: r =>
    if e == 'e' || e == 'E' then
      let (negative, r') :=
        match r with
        | '-' :: r' => (true, r')
        | '+' :: r' => (false, r')
        | _ => (false, r)
      let ds := r'.takeWhile Char.isDigit
      if ds.isEmpty then (none, s)
      else
        let n : Int := natOf ds
        (some (if negative then -n else n), r'.dropWhile Char.isDigit)
    else (none, s)
  | [] => (none, s)

/-- Read a number. Leading zeros end it. -/
def number? (s : List Char) : Option (Json × List Char) :=
  let (negative, r) :=
    match s with
    | '-' :: r => (true, r)
    | _ => (false, s)
  let whole :=
    match r with
    | '0' :: _ => ['0']
    | _ => r.takeWhile Char.isDigit
  if whole.isEmpty then none
  else
    let r := r.drop whole.length
    let (fraction, r) := fractionPart r
    let (exponent, r) := exponentPart r
    if fraction.isEmpty && exponent.isNone then
      if Reading.maxDigits < whole.length then none
      else
        let n : Int := natOf whole
        some (.int (if negative then -n else n), r)
    else
      let e := exponent.getD 0 - fraction.length
      some (.float (.ofDecimal negative (natOf (whole ++ fraction)) e), r)

/-- Set a field: a new name goes to the end, a known one keeps its place. -/
def setField (name : String) (v : Json) : List (String × Json) → List (String × Json)
  | [] => [(name, v)]
  | (k, w) :: r => if k == name then (k, v) :: r else (k, w) :: setField name v r

mutual

/-- Read a value. -/
def value? : Nat → List Char → Option (Json × List Char)
  | 0, _ => none
  | fuel + 1, s =>
    match s with
    | '"' :: r => (string? r).map fun (points, r) => (ofPoints points, r)
    | '[' :: r =>
      match skipBlanks r with
      | ']' :: r => some (.array [], r)
      | r => (items? fuel [] r).map fun (vs, r) => (.array vs, r)
    | '{' :: r =>
      match skipBlanks r with
      | '}' :: r => some (.object [], r)
      | r => (fields? fuel [] r).map fun (fs, r) => (.object fs, r)
    | _ =>
      match after? "null".toList s, after? "true".toList s, after? "false".toList s with
      | some r, _, _ => some (.null, r)
      | _, some r, _ => some (.bool true, r)
      | _, _, some r => some (.bool false, r)
      | _, _, _ =>
        match after? "NaN".toList s, after? "Infinity".toList s, after? "-Infinity".toList s with
        | some r, _, _ => some (.float .nan, r)
        | _, some r, _ => some (.float (.infinite false), r)
        | _, _, some r => some (.float (.infinite true), r)
        | _, _, _ => number? s

/-- Read the items of an array and its closing bracket; `seen` holds items in reverse. -/
def items? : Nat → List Json → List Char → Option (List Json × List Char)
  | 0, _, _ => none
  | fuel + 1, seen, s =>
    match value? fuel s with
    | none => none
    | some (v, r) =>
      match skipBlanks r with
      | ',' :: r => items? fuel (v :: seen) (skipBlanks r)
      | ']' :: r => some ((v :: seen).reverse, r)
      | _ => none

/-- Read the fields of an object and its closing brace. -/
def fields? : Nat → List (String × Json) → List Char → Option (List (String × Json) × List Char)
  | 0, _, _ => none
  | fuel + 1, seen, s =>
    match s with
    | '"' :: r =>
      match string? r with
      | none => none
      | some (name, r) =>
        match skipBlanks r with
        | ':' :: r =>
          match value? fuel (skipBlanks r) with
          | none => none
          | some (v, r) =>
            let seen := setField (Text.ofPoints name) v seen
            match skipBlanks r with
            | ',' :: r => fields? fuel seen (skipBlanks r)
            | '}' :: r => some (seen, r)
            | _ => none
        | _ => none
    | _ => none

end

/-- Read a whole text as one document; a byte order mark may stand first. -/
def read? (s : String) : Option Json :=
  let s :=
    match s.toList with
    | c :: r => if c.toNat = 0xfeff then r else c :: r
    | [] => []
  match value? (2 * s.length + 2) (skipBlanks s) with
  | some (v, r) => if (skipBlanks r).isEmpty then some v else none
  | none => none

end Hypermedia.Json
