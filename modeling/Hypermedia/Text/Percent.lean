import Hypermedia.Text.Digit
import Hypermedia.Text.Torn

/-!
# Percent escapes

In an address a byte can stand as a percent sign with two hexadecimal digits. The bytes of
an address are read as UTF-8; where they are none, the replacement character stands for
what was begun (`decodeUtf8`).
-/

namespace Hypermedia.Text

/-- A character of several bytes of which some were read: how many are owed, the range of
the next one, and the bits so far. -/
structure PartialChar where
  owed : Nat
  low : Nat
  high : Nat
  bits : Nat

/-- What a first byte begins, if it begins several. -/
def lead? (b : Nat) : Option PartialChar :=
  if 0xC2 ≤ b && b ≤ 0xDF then some ⟨1, 0x80, 0xBF, b - 0xC0⟩
  else if b = 0xE0 then some ⟨2, 0xA0, 0xBF, 0⟩
  else if b = 0xED then some ⟨2, 0x80, 0x9F, 0xD⟩
  else if 0xE1 ≤ b && b ≤ 0xEF then some ⟨2, 0x80, 0xBF, b - 0xE0⟩
  else if b = 0xF0 then some ⟨3, 0x90, 0xBF, 0⟩
  else if 0xF1 ≤ b && b ≤ 0xF3 then some ⟨3, 0x80, 0xBF, b - 0xF0⟩
  else if b = 0xF4 then some ⟨3, 0x80, 0x8F, 4⟩
  else none

/-- What a byte yields at the start of a character, and what it leaves open. -/
def startChar (b : Nat) : List Char × Option PartialChar :=
  if b < 0x80 then ([Char.ofNat b], none)
  else
    match lead? b with
    | some p => ([], some p)
    | none => ([replacement], none)

/-- What a byte yields after what was begun, and what it leaves open. -/
def continueChar (p : PartialChar) (b : Nat) : List Char × Option PartialChar :=
  if p.low ≤ b && b ≤ p.high then
    let bits := p.bits * 64 + (b - 0x80)
    if p.owed ≤ 1 then ([Char.ofNat bits], none)
    else ([], some ⟨p.owed - 1, 0x80, 0xBF, bits⟩)
  else
    let (cs, next) := startChar b
    (replacement :: cs, next)

/-- Read bytes as UTF-8 after what was begun. -/
def decodeFrom : Option PartialChar → List UInt8 → List Char
  | none, [] => []
  | some _, [] => [replacement]
  | p, b :: r =>
    let (cs, next) := p.elim (startChar b.toNat) (continueChar · b.toNat)
    cs ++ decodeFrom next r

/-- Read bytes as UTF-8. -/
def decodeUtf8 (bytes : List UInt8) : List Char := decodeFrom none bytes

/-- The bytes of a character in UTF-8. -/
def encodeUtf8 (c : Char) : List UInt8 :=
  let n := c.toNat
  let tail (shift : Nat) : Nat := 0x80 + n / Nat.pow 2 shift % 64
  let bytes : List Nat :=
    if n < 0x80 then [n]
    else if n < 0x800 then [0xC0 + n / 64, tail 0]
    else if n < 0x10000 then [0xE0 + n / 4096, tail 6, tail 0]
    else [0xF0 + n / 262144, tail 12, tail 6, tail 0]
  bytes.map UInt8.ofNat

/-- The bytes of a text with escapes. A percent sign without two digits stands for itself. -/
def percentBytes : List Char → List UInt8
  | [] => []
  | '%' :: a :: b :: r =>
    match hexValue? a, hexValue? b with
    | some x, some y => UInt8.ofNat (16 * x + y) :: percentBytes r
    | _, _ => encodeUtf8 '%' ++ percentBytes (a :: b :: r)
  | c :: r => encodeUtf8 c ++ percentBytes r

/-- A text with its escapes read. -/
def percentDecode (s : List Char) : List Char := decodeUtf8 (percentBytes s)

/-- Does a character stand for itself in an address? -/
def isAddressChar (c : Char) : Bool :=
  c.toNat < 128 && (c.isAlphanum || "_.-~%!#$&'()*+,/:;=@?".toList.contains c)

/-- A character of an address. -/
def addressChar (c : Char) : List Char :=
  if isAddressChar c then [c]
  else (encodeUtf8 c).flatMap fun b => '%' :: (hexDigits 2 b.toNat).map Char.toUpper

/-- A text as an address: bytes that may not stand there are escaped. -/
def percentEncode (s : String) : String := String.ofList (s.toList.flatMap addressChar)

end Hypermedia.Text
