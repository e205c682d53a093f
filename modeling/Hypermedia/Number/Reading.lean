import Hypermedia.Number.Decimal
import Hypermedia.Text.Digit

/-!
# Reading numbers

Readers of integers, doubles and decimals from texts that people type: blanks may stand
around a number, its digits may be of any script, and an underscore may stand between two
digits. Integers of more than `Reading.maxDigits` digits are neither read nor written.
-/

namespace Hypermedia.Reading

/-- The value of a digit or a letter as a digit. -/
def digitOf? (c : Char) : Option Nat :=
  if c.isDigit then some (c.toNat - 48)
  else if 'a' ≤ c && c ≤ 'z' then some (c.toNat - 87)
  else if 'A' ≤ c && c ≤ 'Z' then some (c.toNat - 55)
  else none

/-- Split off a sign; the first part holds when it is a minus. -/
def sign : List Char → Bool × List Char
  | '-' :: r => (true, r)
  | '+' :: r => (false, r)
  | r => (false, r)

/-- The digits of a list in which single underscores may stand between digits. -/
def digitsWithUnderscores? (base : Nat) (afterDigit : Bool) : List Char → Option (List Nat)
  | [] => if afterDigit then some [] else none
  | '_' :: r => if afterDigit then digitsWithUnderscores? base false r else none
  | c :: r =>
    match digitOf? c with
    | some d =>
      if d < base then (digitsWithUnderscores? base true r).map (d :: ·) else none
    | none => none

/-- Why a text is no integer. -/
inductive IntFault where
  | malformed
  /-- More digits than are converted. -/
  | tooLong (digits : Nat)
  deriving DecidableEq, Repr

/-- The greatest number of decimal digits of an integer that is read or written. -/
def maxDigits : Nat := 4300

/-- Has an integer so few digits that it is written? -/
def isShort (n : Int) : Bool := Binary64.digitCount n.natAbs ≤ maxDigits

/-- The part of a text after the mark of its base, which an underscore may follow. -/
def dropBaseMark (base : Nat) : List Char → List Char
  | '0' :: x :: r =>
    if base = 16 && (x == 'x' || x == 'X') then
      match r with
      | '_' :: r => r
      | r => r
    else '0' :: x :: r
  | r => r

/-- Read an integer in a base. -/
def int (base : Nat) (s : List Char) : Except IntFault Int :=
  match Text.plainDigits? s with
  | none => .error .malformed
  | some s =>
    let (negative, r) := sign (Text.trimBy Text.isAsciiBlank s)
    match digitsWithUnderscores? base false (dropBaseMark base r) with
    | none => .error .malformed
    | some ds =>
      if base = 10 && maxDigits < ds.length then .error (.tooLong ds.length)
      else
        let n : Nat := ds.foldl (fun n d => base * n + d) 0
        .ok (if negative then -(n : Int) else n)

/-- Remove underscores; `none` if one does not stand between two digits. -/
def dropUnderscores? (before : Option Char) : List Char → Option (List Char)
  | [] => if before == some '_' then none else some []
  | c :: r =>
    let afterDigit := (before.map Char.isDigit).getD false
    if c == '_' then if afterDigit then dropUnderscores? (some c) r else none
    else if before == some '_' && !c.isDigit then none
    else (dropUnderscores? (some c) r).map (c :: ·)

/-- An unsigned decimal number: coefficient and exponent. -/
def scientific? (s : List Char) : Option (Nat × Int) :=
  let whole := s.takeWhile Char.isDigit
  let r := s.drop whole.length
  let (fraction, r) :=
    match r with
    | '.' :: r => (r.takeWhile Char.isDigit, r.dropWhile Char.isDigit)
    | _ => ([], r)
  if whole.isEmpty && fraction.isEmpty then none
  else
    let value (ds : List Char) : Nat := ds.foldl (fun n c => 10 * n + (c.toNat - 48)) 0
    let coefficient := value (whole ++ fraction)
    match r with
    | [] => some (coefficient, -(fraction.length : Int))
    | e :: r =>
      let (negative, ds) := sign r
      if (e == 'e' || e == 'E') && !ds.isEmpty && ds.all Char.isDigit then
        let x : Int := value ds
        some (coefficient, (if negative then -x else x) - fraction.length)
      else none

/-- The text in lower case, ASCII letters only. -/
def folded (s : List Char) : String := String.ofList (s.map Char.toLower)

/-- Read a double. -/
def binary64? (s : List Char) : Option Binary64 := do
  let s ← Text.plainDigits? s
  let s ← dropUnderscores? none (Text.trimBy Text.isAsciiBlank s)
  let (negative, r) := sign s
  if folded r == "inf" || folded r == "infinity" then some (.infinite negative)
  else if folded r == "nan" then some .nan
  else
    let (c, e) ← scientific? r
    some (.ofDecimal negative c e)

/-- Read the digits after the name of a NaN. -/
def payload? (s : List Char) : Option (Option Nat) :=
  if s.isEmpty then some none
  else if s.all Char.isDigit then
    let n := s.foldl (fun n c => 10 * n + (c.toNat - 48)) 0
    some (if n = 0 then none else some n)
  else none

/-- Read a decimal. Underscores may stand anywhere. -/
def decimal? (s : List Char) : Option Decimal := do
  let s ← Text.plainDigits? (Text.trimBy Text.isBlank s)
  let (negative, r) := sign (s.filter (· != '_'))
  if folded r == "inf" || folded r == "infinity" then some (.infinite negative)
  else if folded (r.take 3) == "nan" then
    (payload? (r.drop 3)).map fun p => .nan negative false p
  else if folded (r.take 4) == "snan" then
    (payload? (r.drop 4)).map fun p => .nan negative true p
  else
    let (c, e) ← scientific? r
    some (.finite negative c e)

end Hypermedia.Reading
