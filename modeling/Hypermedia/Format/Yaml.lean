import Hypermedia.Naming
import Hypermedia.Value

/-!
# Values as YAML

A value over lines: the fields of an object one below the other, the items of a list after
dashes, which are not indented below the name of the list. A text is written plain where it
reads as that text again, between single quotes where it would read as something else, and
between double quotes with escapes where it has characters beyond printable ASCII.
-/

namespace Hypermedia.Yaml

/-! ## Plain texts that mean something else -/

/-- The words for nothing, truth values, special numbers and merging. -/
def reservedWords : List String :=
  ["", "~", "null", "Null", "NULL", "yes", "Yes", "YES", "no", "No", "NO", "true", "True", "TRUE",
    "false", "False", "FALSE", "on", "On", "ON", "off", "Off", "OFF", "<<", "=", ".inf", ".Inf",
    ".INF", "-.inf", "-.Inf", "-.INF", "+.inf", "+.Inf", "+.INF", ".nan", ".NaN", ".NAN"]

/-- Digits, with underscores between them. -/
def areDigits (s : List Char) : Bool := s.all fun c => c.isDigit || c == '_'

/-- A digit and more of them. -/
def isNumeral : List Char → Bool
  | [] => false
  | c :: r => c.isDigit && areDigits r

/-- A number without its sign. -/
def unsigned : List Char → List Char
  | '+' :: r | '-' :: r => r
  | s => s

/-- One of the parts below sixty of a number in base sixty. -/
def isSixtieth : List Char → Bool
  | [a] => a.isDigit
  | [a, b] => '0' ≤ a && a ≤ '5' && b.isDigit
  | _ => false

/-- Does a text read as an integer? -/
def isInteger (s : List Char) : Bool :=
  let digitsOf (allowed : String) (r : List Char) : Bool :=
    !r.isEmpty && r.all fun c => allowed.toList.contains c
  match unsigned s with
  | '0' :: 'b' :: r => digitsOf "01_" r
  | '0' :: 'x' :: r => digitsOf "0123456789abcdefABCDEF_" r
  | ['0'] => true
  | '0' :: r => digitsOf "01234567_" r
  | r =>
    match Naming.splitOn ':' r with
    | first :: rest => isNumeral first && rest.all isSixtieth
    | [] => false

/-- A text without an exponent at its end. -/
def withoutExponent (s : List Char) : List Char :=
  let isExponent (e : List Char) : Bool :=
    match e with
    | x :: sign :: d :: r =>
      (x == 'e' || x == 'E') && (sign == '+' || sign == '-') && (d :: r).all Char.isDigit
    | _ => false
  let mantissa := s.takeWhile fun c => c != 'e' && c != 'E'
  if isExponent (s.drop mantissa.length) then mantissa else s

/-- Does a text read as a number with a fraction? -/
def isFraction (s : List Char) : Bool :=
  let parts (r : List Char) : List Char × List Char :=
    (r.takeWhile (· != '.'), r.dropWhile (· != '.'))
  let hasPoint (r : List Char) : Bool :=
    match r with
    | '.' :: f => areDigits f
    | _ => false
  let (whole, fraction) := parts (withoutExponent s)
  let (base, point) := parts (unsigned s)
  (isNumeral (unsigned whole) && hasPoint fraction) ||
    (whole.isEmpty && isNumeral (fraction.drop 1)) ||
    (match Naming.splitOn ':' base with
      | first :: r :: rest => isNumeral first && (r :: rest).all isSixtieth && hasPoint point
      | _ => false)

/-- Does a text read as a date? -/
def isDay (s : List Char) : Bool :=
  match Naming.splitOn '-' s with
  | [y, m, d] =>
    y.length = 4 && m.length = 2 && d.length = 2 && (y ++ m ++ d).all Char.isDigit
  | _ => false

/-- Would a plain text read as something else than a text? -/
def isReserved (s : String) : Bool :=
  reservedWords.contains s || isInteger s.toList || isFraction s.toList || isDay s.toList

/-! ## Plain and quoted texts -/

/-- Is a character printable ASCII? -/
def isPlainChar (c : Char) : Bool := 32 ≤ c.toNat && c.toNat < 127

/-- Does nothing follow, or a blank? -/
def endsWord : List Char → Bool
  | [] => true
  | c :: _ => c == ' '

/-- Is there a colon before a blank, or a comment after one? -/
def hasMark : List Char → Bool
  | ':' :: r => endsWord r || hasMark r
  | ' ' :: '#' :: _ => true
  | _ :: r => hasMark r
  | [] => false

/-- May a text begin so? -/
def beginsPlain : List Char → Bool
  | '-' :: '-' :: '-' :: _ | '.' :: '.' :: '.' :: _ => false
  | '-' :: r | '?' :: r => !endsWord r
  | c :: _ => !("#,[]&*!|> '\"%@\x60\x7b\x7d".toList.contains c)
  | [] => false

/-- May a text of printable ASCII stand without quotes? -/
def isPlain (s : String) : Bool :=
  beginsPlain s.toList && !hasMark s.toList && s.toList.getLast? != some ' ' && !isReserved s

/-- The escape of a character between double quotes. -/
def escape (c : Char) : List Char :=
  let named : List (Nat × Char) :=
    [(0, '0'), (7, 'a'), (8, 'b'), (9, 't'), (10, 'n'), (11, 'v'), (12, 'f'), (13, 'r'), (27, 'e'),
      (34, '"'), (92, '\\'), (0x85, 'N'), (0xA0, '_'), (0x2028, 'L'), (0x2029, 'P')]
  let upper (width : Nat) : List Char := (Text.hexDigits width c.toNat).map Char.toUpper
  match named.find? fun e => e.1 = c.toNat with
  | some e => ['\\', e.2]
  | none =>
    if isPlainChar c then [c]
    else if c.toNat < 0x100 then '\\' :: 'x' :: upper 2
    else if c.toNat < 0x10000 then '\\' :: 'u' :: upper 4
    else '\\' :: 'U' :: upper 8

/-- A text between single quotes. -/
def singleQuoted (s : String) : String :=
  let quote := Text.singleQuote
  String.ofList
    (quote :: s.toList.flatMap (fun c => if c == quote then [c, c] else [c]) ++ [quote])

/-- A text between double quotes. -/
def doubleQuoted (s : String) : String := String.ofList ('"' :: s.toList.flatMap escape ++ ['"'])

/-- A text as it is written. -/
def scalar (s : String) : String :=
  if s.toList.all isPlainChar then if isPlain s then s else singleQuoted s
  else doubleQuoted s

/-! ## Values over lines -/

/-- A value that is written on the line of its name, if it is one. -/
def inline? : Value → Option String
  | .null => some "null"
  | .bool b => some (if b then "true" else "false")
  | .list [] => some "[]"
  | .object [] => some "\x7b\x7d"
  | .list _ | .object _ => none
  | .text s => some (scalar s)
  | v => some v.display

/-- Lines with a dash before the first one. -/
def afterDash : List String → List String
  | [] => []
  | l :: r => s!"- {l}" :: r.map ("  " ++ ·)

mutual

/-- The lines of a value that is not written on one line. -/
def lines : Value → List String
  | .list items => itemLines items
  | .object fields => fieldLines fields
  | _ => []

/-- The lines of the items of a list. -/
def itemLines : List Value → List String
  | [] => []
  | v :: r => afterDash ((inline? v).elim (lines v) fun s => [s]) ++ itemLines r

/-- The lines of the fields of an object. -/
def fieldLines : List (String × Value) → List String
  | [] => []
  | (k, v) :: r =>
    (match inline? v, v with
      | some s, _ => [s!"{scalar k}: {s}"]
      | none, .list items => s!"{scalar k}:" :: itemLines items
      | none, v => s!"{scalar k}:" :: (lines v).map ("  " ++ ·)) ++ fieldLines r

end

/-- A value as a text that ends with a new line. -/
def text (v : Value) : String :=
  String.join (((inline? v).elim (lines v) fun s => [s]).map (· ++ "\n"))

end Hypermedia.Yaml
