import Hypermedia.Fault
import Hypermedia.Number.Reading

/-!
# Columns and the conversion of values

A column holds values of one type. `ColumnType.convert` turns any value of a payload into a
value of the column's type or says why it cannot; `parse` is what an assignment does with
it: nothing stays nothing, a value that already has the type is kept, and a value that
cannot be used is the client's fault (`Fault.invalid`), if it can be told
(`Conversion.refusal`).
-/

namespace Hypermedia

/-- The types of columns. A custom column takes values as they are. -/
inductive ColumnType where
  | integer
  | string
  | text
  | boolean
  | float
  | numeric
  | date
  | dateTime
  | time
  | interval
  | uuid
  | binary
  | json
  | custom
  deriving DecidableEq, Repr, Inhabited

namespace Conversion

/-- The name of a value's kind in a message. -/
def kindName : Value → String
  | .null => "NoneType"
  | .bool _ => "bool"
  | .int _ => "int"
  | .float _ => "float"
  | .decimal _ => "decimal.Decimal"
  | .text _ | .torn _ => "str"
  | .bytes _ => "bytes"
  | .date _ => "datetime.date"
  | .time _ => "datetime.time"
  | .dateTime _ => "datetime.datetime"
  | .duration _ => "datetime.timedelta"
  | .uuid _ => "UUID"
  | .foreign _ _ => "object"
  | .list _ => "list"
  | .object _ => "dict"

/-- The whole number of a boolean or an integer. -/
def whole? : Value → Option Int
  | .bool b => some (if b then 1 else 0)
  | .int n => some n
  | _ => none

/-- The first 200 characters. -/
def shortened (s : String) : String := String.ofList (s.toList.take 200)

/-- An integer from a text, with the message of an integer reader. -/
def intOfText (base : Nat) (s : String) (literal : String) : Except Fault Int :=
  match Reading.int base s.toList with
  | .ok n => .ok n
  | .error .malformed =>
    .error (.badValue s!"invalid literal for int() with base {base}: {shortened literal}")
  | .error (.tooLong n) =>
    .error (.badValue (s!"Exceeds the limit (4300 digits) for integer string conversion: " ++
      s!"value has {n} digits; use sys.set_int_max_str_digits() to increase the limit"))

/-- The integer part of a number, or the integer that a text spells. -/
def toInt : Value → Except Fault Int
  | .bool b => .ok (if b then 1 else 0)
  | .int n => .ok n
  | .float .nan => .error (.badValue "cannot convert float NaN to integer")
  | .float (.infinite _) => .error (.overflow "cannot convert float infinity to integer")
  | .float x => .ok ((x.truncate?).getD 0)
  | .decimal (.nan ..) => .error (.badValue "cannot convert NaN to integer")
  | .decimal (.infinite _) => .error (.overflow "cannot convert Infinity to integer")
  | .decimal (.finite s c e) =>
    let n := if 0 ≤ e then c * Nat.pow 10 e.toNat else c / Nat.pow 10 (-e).toNat
    .ok (if s then -(n : Int) else n)
  | .uuid u => .ok u.number
  | .text s => intOfText 10 s (Text.quoted s)
  | .torn t => intOfText 10 t.display t.quoted
  | .bytes b =>
    intOfText 10 (String.ofList (b.map fun x => Char.ofNat x.toNat)) (Text.quotedBytes b)
  | v =>
    .error (.badType ("int() argument must be a string, a bytes-like object or a real number, " ++
      s!"not '{kindName v}'"))

/-- A double from a text. -/
def binary64OfText (s literal : String) : Except Fault Binary64 :=
  match Reading.binary64? s.toList with
  | some x => .ok x
  | none => .error (.badValue s!"could not convert string to float: {literal}")

/-- The double nearest to a number, or the double that a text spells. -/
def toBinary64 (v : Value) : Except Fault Binary64 :=
  match v with
  | .float x => .ok x
  | .decimal d =>
    match d.toBinary64? with
    | some x => .ok x
    | none => .error (.badValue "cannot convert signaling NaN to float")
  | .text s => binary64OfText s (Text.quoted s)
  | .torn t => binary64OfText t.display t.quoted
  | .bytes b =>
    binary64OfText (String.ofList (b.map fun x => Char.ofNat x.toNat)) (Text.quotedBytes b)
  | v =>
    match whole? v with
    | some n =>
      match Binary64.ofInt? n with
      | some x => .ok x
      | none => .error (.overflow "int too large to convert to float")
    | none =>
      .error (.badType s!"float() argument must be a string or a real number, not '{kindName v}'")

/-- One more than the greatest integer of a machine word, 63 binary digits without the sign. -/
def wordBound : Int := 9223372036854775808

/-- Does an integer fit into a machine word? -/
def fitsWord (n : Int) : Bool := -wordBound ≤ n && n < wordBound

/-- An integer of a machine word of the given kind. -/
def word (kind : String) (n : Int) : Except Fault Int :=
  if fitsWord n then .ok n
  else .error (.overflow s!"Python int too large to convert to C {kind}")

/-- The sign of a decimal given by its parts; it holds when the decimal is negative. -/
def signOf (v : Value) : Except Fault Bool :=
  match whole? v with
  | some n => do
    let n ← word "long" n
    if n = 0 then .ok false
    else if n = 1 then .ok true
    else .error (.badValue "sign must be an integer with the value 0 or 1")
  | none => .error (.badValue "sign must be an integer with the value 0 or 1")

/-- A digit of a decimal given by its parts. -/
def digitOf (v : Value) : Except Fault Nat :=
  match whole? v with
  | some n => do
    let n ← word "long" n
    if 0 ≤ n ∧ n ≤ 9 then .ok n.toNat
    else .error (.badValue "coefficient must be a tuple of digits")
  | none => .error (.badValue "coefficient must be a tuple of digits")

/-- The digits of a decimal given by its parts. -/
def digitsOf : Value → Except Fault (List Nat)
  | .list vs => vs.mapM digitOf
  | _ => .error (.badValue "coefficient must be a tuple of digits")

/-- A decimal, if there is one of its size. -/
def bounded (d : Decimal) : Except Fault Decimal :=
  if d.inRange then .ok d else .error .noDecimal

/-- The number of a list of digits. -/
def numberOf (digits : List Nat) : Nat := digits.foldl (fun n d => 10 * n + d) 0

/-- The payload of a NaN with these digits; zero is none. -/
def payloadOf (digits : List Nat) : Option Nat :=
  if numberOf digits = 0 then none else some (numberOf digits)

/-- A decimal of a sign, digits and an exponent; a letter in place of the exponent stands
for an infinity or a NaN. -/
def decimalOfParts (sign digits exponent : Value) : Except Fault Decimal := do
  let negative ← signOf sign
  match exponent with
  | .text "F" => (digitsOf digits).map fun _ => .infinite negative
  | .text "n" => (digitsOf digits).map fun ds => .nan negative false (payloadOf ds)
  | .text "N" => (digitsOf digits).map fun ds => .nan negative true (payloadOf ds)
  | .text _ | .torn _ =>
    .error (.badValue "string argument in the third position must be 'F', 'n' or 'N'")
  | e =>
    match whole? e with
    | some n => do
      let n ← word "ssize_t" n
      let ds ← digitsOf digits
      bounded (.finite negative (numberOf ds) n)
    | none => .error (.badValue "exponent must be an integer")

/-- The exact decimal of a number, or the decimal that a text spells. -/
def toDecimal : Value → Except Fault Decimal
  | .decimal d => .ok d
  | .float x => .ok (.ofBinary64 x)
  | .text s =>
    match Reading.decimal? s.toList with
    | some d => bounded d
    | none => .error .noDecimal
  | .torn _ => .error .noDecimal
  | .list [s, ds, e] => decimalOfParts s ds e
  | .list _ => .error (.badValue "argument must be a sequence of length 3")
  | v =>
    match whole? v with
    | some n => .ok (.ofInt n)
    | none => .error (.badType s!"conversion from {kindName v} to Decimal is not supported")

/-- The message of a field that is out of range. -/
def fieldMessage : FieldFault → String
  | .year n => s!"year {n} is out of range"
  | .month => "month must be in 1..12"
  | .day => "day is out of range for month"
  | .hour => "hour must be in 0..23"
  | .minute => "minute must be in 0..59"
  | .second => "second must be in 0..59"
  | .offset n =>
    let length :=
      match Duration.ofMicros n with
      | .ok d => Value.durationLiteral d
      | .error _ => ""
    "offset must be a timedelta strictly between -timedelta(hours=24) and " ++
      s!"timedelta(hours=24), not {length}."

/-- The outcome of reading a date or a time, with its message. -/
def isoOutcome {α : Type} (text : String) : Except Iso.Fault α → Except Fault α
  | .ok a => .ok a
  | .error .malformed => .error (.badValue s!"Invalid isoformat string: {Text.quoted text}")
  | .error (.field f) => .error (.badValue (fieldMessage f))

/-- The outcome of taking a number of days, with its message. -/
def durationOutcome : Except DurationFault Duration → Except Fault Duration
  | .ok d => .ok d
  | .error (.days n) => .error (.overflow s!"days={n}; must have magnitude <= 999999999")
  | .error .huge => .error (.overflow "Python int too large to convert to C int")
  | .error .infinite => .error (.overflow "cannot convert float infinity to integer")
  | .error .nan => .error (.badValue "cannot convert float NaN to integer")

/-- The duration of a number of days. -/
def toDuration : Value → Except Fault Duration
  | .float x => durationOutcome (Duration.ofDays x)
  | v =>
    match whole? v with
    | some n => durationOutcome (Duration.ofWholeDays n)
    | none =>
      .error (.badType s!"unsupported type for timedelta days component: {kindName v}")

/-- Remove every occurrence of a text; `fuel` bounds the characters that are left. -/
def without (part : List Char) : Nat → List Char → List Char
  | 0, s => s
  | _ + 1, [] => []
  | fuel + 1, c :: r =>
    if !part.isEmpty && part.isPrefixOf (c :: r) then
      without part fuel ((c :: r).drop part.length)
    else c :: without part fuel r

/-- The hexadecimal digits of an identifier, without what may be written around and
between them. -/
def uuidDigits (s : List Char) : List Char :=
  let s := without "urn:".toList s.length s
  let s := without "uuid:".toList s.length s
  let brace (c : Char) : Bool := c.toNat = 123 || c.toNat = 125
  (Text.trimBy brace s).filter (· != '-')

/-- An identifier from a text. -/
def uuidOfText (s : String) : Except Fault Uuid :=
  let ds := uuidDigits s.toList
  if ds.length ≠ 32 then .error (.badValue "badly formed hexadecimal UUID string")
  else do
    let hex := String.ofList ds
    let n ← intOfText 16 hex (Text.quoted hex)
    if h : n.toNat < Nat.pow 2 128 then
      if 0 ≤ n then .ok ⟨n.toNat, h⟩
      else .error (.badValue "int is out of range (need a 128-bit value)")
    else .error (.badValue "int is out of range (need a 128-bit value)")

/-- The identifier that a text spells. -/
def toUuid : Value → Except Fault Uuid
  | .text s => uuidOfText s
  | .torn t => uuidOfText t.display
  | .bytes _ => .error (.badType "a bytes-like object is required, not 'str'")
  | .date _ | .dateTime _ | .time _ =>
    .error (.badType "'str' object cannot be interpreted as an integer")
  | v => .error (.noAttribute s!"'{kindName v}' object has no attribute 'replace'")

/-- A byte of a list of numbers. -/
def byteOf (v : Value) : Except Fault UInt8 :=
  match whole? v with
  | some n =>
    if 0 ≤ n ∧ n < 256 then .ok (UInt8.ofNat n.toNat)
    else .error (.badValue "bytes must be in range(0, 256)")
  | none => .error (.badType s!"'{kindName v}' object cannot be interpreted as an integer")

/-- The bytes in front of a string of bytes; both together have a size in a machine word. -/
def bytesHead : Int := 33

/-- Bytes from their numbers; a number alone asks for so many zeros, for which there may be no
room. -/
def toBytes (hasRoom : Nat → Bool) : Value → Except Fault (List UInt8)
  | .bytes b => .ok b
  | .text _ | .torn _ => .error (.badType "string argument without an encoding")
  | .list vs => vs.mapM byteOf
  | .object fields => (fields.map fun f => Value.text f.1).mapM byteOf
  | v =>
    match whole? v with
    | some n =>
      if !fitsWord n then .error (.overflow "cannot fit 'int' into an index-sized integer")
      else if n < 0 then .error (.badValue "negative count")
      else if wordBound - bytesHead ≤ n then .error (.overflow "byte string is too large")
      else if !hasRoom n.toNat then .error .noMemory
      else .ok (List.replicate n.toNat 0)
    | none => .error (.badType s!"cannot convert '{kindName v}' object to bytes")

/-- The fault of a value that the column of a name does not take, by the reason; there is another
one if the value cannot be told. -/
def refusal (name : String) (v : Value) (reason : String) : Fault :=
  match v.toText with
  | .ok text => .invalid s!"Invalid value \"{text}\" for {name}: {reason}"
  | .error f => f

end Conversion

namespace ColumnType

/-- Has the value the type of the column already? Booleans count as integers and instants
as dates. -/
def holds : ColumnType → Value → Bool
  | .integer, .int _ | .integer, .bool _ => true
  | .string, .text _ | .string, .torn _ | .text, .text _ | .text, .torn _ => true
  | .boolean, .bool _ => true
  | .float, .float _ => true
  | .numeric, .decimal _ => true
  | .date, .date _ | .date, .dateTime _ => true
  | .dateTime, .dateTime _ => true
  | .time, .time _ => true
  | .interval, .duration _ => true
  | .uuid, .uuid _ => true
  | .binary, .bytes _ => true
  | .json, _ | .custom, _ => true
  | _, _ => false

/-- Turn a value into one of the column's type, with room for so many bytes as `hasRoom`
says. -/
def convert (type : ColumnType) (hasRoom : Nat → Bool) (v : Value) : Except Fault Value :=
  match type with
  | .integer => (Conversion.toInt v).map .int
  | .string | .text => v.toText.map .text
  | .boolean => .ok (.bool v.truthy)
  | .float => (Conversion.toBinary64 v).map .float
  | .numeric => (Conversion.toDecimal v).map .decimal
  | .date => do
    let s ← v.toText
    (Conversion.isoOutcome s (Iso.date s)).map .date
  | .dateTime => do
    let s ← v.toText
    (Conversion.isoOutcome s (Iso.dateTime s)).map .dateTime
  | .time => do
    let s ← v.toText
    (Conversion.isoOutcome s (Iso.time s)).map .time
  | .interval => (Conversion.toDuration v).map .duration
  | .uuid => (Conversion.toUuid v).map .uuid
  | .binary => (Conversion.toBytes hasRoom v).map .bytes
  | .json | .custom => .ok v

/-- The value that an assignment to the column of this name stores. -/
def parse (type : ColumnType) (hasRoom : Nat → Bool) (name : String) (v : Value) :
    Except Fault Value :=
  if v.isNull || type.holds v then .ok v
  else
    match type.convert hasRoom v with
    | .error (.badValue t) | .error (.badType t) => .error (Conversion.refusal name v t)
    | r => r

end ColumnType

end Hypermedia
