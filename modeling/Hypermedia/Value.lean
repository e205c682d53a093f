import Hypermedia.Calendar.Time
import Hypermedia.Number.Reading
import Hypermedia.Text.Torn

/-!
# Values

The values of properties and payloads: the values of a JSON document, with torn texts beside
the others and objects as lists of fields in order, and the dates, times, durations,
identifiers, decimals and bytes that columns hold. A foreign value is an object that the
library knows nothing about but its text; it is equal only to itself.

`Value.display` is how a value reads in a message, `Value.literal` how it reads inside a list
or an object there, both however long the integers in it are; what is written of a value in
which all integers are short (`Value.isShort`) is this, and nothing is written of the others.
Documents that were read and the ids of stored records have short integers only.
`Value.same` is equality across the kinds of number.
-/

namespace Hypermedia

/-- A universally unique identifier, as a number of 128 bits. -/
structure Uuid where
  number : Nat
  inRange : number < Nat.pow 2 128
  deriving DecidableEq

namespace Uuid

instance : Inhabited Uuid := ⟨⟨0, by decide⟩⟩

/-- The 32 hexadecimal digits. -/
def hex (u : Uuid) : List Char := Text.hexDigits 32 u.number

/-- Groups of 8, 4, 4, 4 and 12 digits. -/
def text (u : Uuid) : String :=
  let h := u.hex
  let part (i n : Nat) : String := String.ofList ((h.drop i).take n)
  s!"{part 0 8}-{part 8 4}-{part 12 4}-{part 16 4}-{part 20 12}"

end Uuid

/-- A value of a property or of a payload. -/
inductive Value where
  | null
  | bool (b : Bool)
  | int (n : Int)
  | float (x : Binary64)
  | decimal (d : Decimal)
  | text (s : String)
  | torn (t : TornText)
  | bytes (b : List UInt8)
  | date (d : Date)
  | time (t : TimeOfDay)
  | dateTime (d : DateTime)
  | duration (d : Duration)
  | uuid (u : Uuid)
  | foreign (id : Nat) (text : String)
  | list (items : List Value)
  | object (fields : List (String × Value))
  deriving Inhabited

namespace Value

/-- Parts after commas. -/
def listed (parts : List String) : String := ", ".intercalate parts

/-- The literal form of an offset. -/
def offsetLiteral (o : Offset) : String :=
  if o.micros = 0 then "datetime.timezone.utc"
  else
    let days := o.micros / dayMicros
    let rest := (o.micros % dayMicros).toNat
    let parts :=
      (if days = 0 then [] else [s!"days={days}"]) ++
        (if rest / 1000000 = 0 then [] else [s!"seconds={rest / 1000000}"]) ++
        (if rest % 1000000 = 0 then [] else [s!"microseconds={rest % 1000000}"])
    s!"datetime.timezone(datetime.timedelta({listed parts}))"

/-- The fields of a time in a literal: the seconds only with a part below the minute, the
offset only when there is one. -/
def clockParts (t : TimeOfDay) : List String :=
  [toString t.hour, toString t.minute] ++
    (if t.second = 0 && t.micro = 0 then [] else [toString t.second]) ++
    (if t.micro = 0 then [] else [toString t.micro]) ++
    (match t.offset with
    | some o => ["tzinfo=" ++ offsetLiteral o]
    | none => [])

/-- The literal form of a duration. -/
def durationLiteral (d : Duration) : String :=
  let parts :=
    (if d.days = 0 then [] else [s!"days={d.days}"]) ++
      (if d.seconds = 0 then [] else [s!"seconds={d.seconds}"]) ++
      (if d.micro = 0 then [] else [s!"microseconds={d.micro}"])
  let parts := if parts.isEmpty then ["0"] else parts
  s!"datetime.timedelta({listed parts})"

mutual

/-- How a value reads inside a list or an object. -/
def literal : Value → String
  | .null => "None"
  | .bool b => if b then "True" else "False"
  | .int n => toString n
  | .float x => x.text .plain
  | .decimal d => s!"Decimal('{d.text}')"
  | .text s => Text.quoted s
  | .torn t => t.quoted
  | .bytes b => Text.quotedBytes b
  | .date d => s!"datetime.date({d.year}, {d.month}, {d.day})"
  | .time t => s!"datetime.time({listed (clockParts t)})"
  | .dateTime d =>
    let day := [toString d.date.year, toString d.date.month, toString d.date.day]
    s!"datetime.datetime({listed (day ++ clockParts d.time)})"
  | .duration d => durationLiteral d
  | .uuid u => s!"UUID('{u.text}')"
  | .foreign _ s => s
  | .list items => "[" ++ listed (literals items) ++ "]"
  | .object fields => "\x7b" ++ listed (fieldLiterals fields) ++ "\x7d"

/-- How the items of a list read. -/
def literals : List Value → List String
  | [] => []
  | v :: r => literal v :: literals r

/-- How the fields of an object read. -/
def fieldLiterals : List (String × Value) → List String
  | [] => []
  | (k, v) :: r => (Text.quoted k ++ ": " ++ literal v) :: fieldLiterals r

end

/-- How a value reads in a message. -/
def display : Value → String
  | .text s => s
  | .torn t => t.display
  | .decimal d => d.text
  | .date d => d.text
  | .time t => t.text
  | .dateTime d => d.text " "
  | .duration d => d.text
  | .uuid u => u.text
  | v => v.literal

mutual

/-- Has every integer in the value so few digits that it is written? -/
def isShort : Value → Bool
  | .int n => Reading.isShort n
  | .list items => areShort items
  | .object fields => fieldsAreShort fields
  | _ => true

/-- Are all integers in the items of a list written? -/
def areShort : List Value → Bool
  | [] => true
  | v :: r => v.isShort && areShort r

/-- Are all integers in the fields of an object written? -/
def fieldsAreShort : List (String × Value) → Bool
  | [] => true
  | (_, v) :: r => v.isShort && fieldsAreShort r

end

/-- The truth of a value: nothing, false, the zeros and everything empty are false. -/
def truthy : Value → Bool
  | .null => false
  | .bool b => b
  | .int n => n != 0
  | .float x => !x.isZero
  | .decimal d => !d.isZero
  | .text s => s != ""
  | .bytes b => !b.isEmpty
  | .duration d => d.micros != 0
  | .list items => !items.isEmpty
  | .object fields => !fields.isEmpty
  | _ => true

/-- The text of code points. -/
def ofPoints (points : List Nat) : Value :=
  match TornText.of? points with
  | some t => .torn t
  | none => .text (Text.ofPoints points)

/-- Is the value nothing? -/
def isNull : Value → Bool
  | .null => true
  | _ => false

/-- The field of an object. -/
def field? (name : String) : Value → Option Value
  | .object fields => (fields.find? fun f => f.1 == name).map (·.2)
  | _ => none

/-- An exact number, an infinity or a NaN, for comparing across the kinds of number. -/
def number? : Value → Option Decimal
  | .bool b => some (.ofInt (if b then 1 else 0))
  | .int n => some (.ofInt n)
  | .float x => some (.ofBinary64 x)
  | .decimal d => some d
  | _ => none

/-- Equality of times: by instant when both have an offset. -/
def sameTime (a b : TimeOfDay) : Bool :=
  match a.offset, b.offset with
  | none, none => a.micros == b.micros
  | some o, some o' => (a.micros : Int) - o.micros == (b.micros : Int) - o'.micros
  | _, _ => false

mutual

/-- Equality of values: numbers by their value, objects whatever the order of their
fields. -/
def same : Value → Value → Bool
  | .null, .null => true
  | .text a, .text b => a == b
  | .torn a, .torn b => a == b
  | .bytes a, .bytes b => a == b
  | .date a, .date b => a == b
  | .time a, .time b => sameTime a b
  | .dateTime a, .dateTime b => a.sameInstant b
  | .duration a, .duration b => a.micros == b.micros
  | .uuid a, .uuid b => a == b
  | .foreign a _, .foreign b _ => a == b
  | .list a, .list b => sameItems a b
  | .object a, .object b => a.length == b.length && sameFields a b
  | a, b =>
    match a.number?, b.number? with
    | some x, some y => x.numEq y
    | _, _ => false

/-- Equality of lists. -/
def sameItems : List Value → List Value → Bool
  | [], [] => true
  | a :: as, b :: bs => same a b && sameItems as bs
  | _, _ => false

/-- Does the second object have every field of the first, with an equal value? -/
def sameFields : List (String × Value) → List (String × Value) → Bool
  | [], _ => true
  | (k, v) :: r, fields =>
    (match fields.find? fun f => f.1 == k with
    | some (_, w) => same v w
    | none => false) && sameFields r fields

end

instance : BEq Value := ⟨same⟩

end Value

end Hypermedia
