import Hypermedia.Text.Boundaries

/-!
# Digits and blanks

The decimal digits and the blanks of the Unicode standard, version 14. `plainDigits` moves
a text that is to be read as a number to ASCII.
-/

namespace Hypermedia.Text

/-- The zeros; the digits of each script follow its zero. -/
def digitZeros : Array Nat :=
  #[
    48, 1632, 1776, 1984, 2406, 2534, 2662, 2790, 2918, 3046, 3174, 3302, 3430, 3558, 3664,
    3792, 3872, 4160, 4240, 6112, 6160, 6470, 6608, 6784, 6800, 6992, 7088, 7232, 7248, 42528,
    43216, 43264, 43472, 43504, 43600, 44016, 65296, 66720, 68912, 69734, 69872, 69942, 70096,
    70384, 70736, 70864, 71248, 71360, 71472, 71904, 72016, 72784, 73040, 73120, 92768, 92864,
    93008, 120782, 120792, 120802, 120812, 120822, 123200, 123632, 125264, 130032]

/-- Where blanks begin and end. -/
def blankRuns : Array Nat :=
  #[
    9, 14, 28, 33, 133, 134, 160, 161, 5760, 5761, 8192, 8203, 8232, 8234, 8239, 8240, 8287,
    8288, 12288, 12289]

/-- Is the character a blank: a space, a separator or one of the controls that move the
position? -/
def isBlank (c : Char) : Bool := inRuns blankRuns c.toNat

/-- Is the character one of the six blanks of ASCII texts? -/
def isAsciiBlank (c : Char) : Bool :=
  c == ' ' || (9 ≤ c.toNat && c.toNat ≤ 13)

/-- The value of a decimal digit of any script. -/
def digitValue? (c : Char) : Option Nat :=
  (digitZeros.find? fun z => z ≤ c.toNat && c.toNat < z + 10).map (c.toNat - ·)

/-- An ASCII character as it is, any other blank as a space, any other digit as the ASCII
digit; `none` for every other character. -/
def plainDigit? (c : Char) : Option Char :=
  if c.toNat < 127 then some c
  else if isBlank c then some ' '
  else (digitValue? c).map fun d => Char.ofNat (48 + d)

/-- A text in ASCII, if all its characters are ASCII, blanks or digits. -/
def plainDigits? (s : List Char) : Option (List Char) := s.mapM plainDigit?

/-- A text without the characters of a class at its ends. -/
def trimBy (p : Char → Bool) (s : List Char) : List Char :=
  ((s.dropWhile p).reverse.dropWhile p).reverse

/-- The value of a hexadecimal digit. -/
def hexValue? (c : Char) : Option Nat :=
  if c.isDigit then some (c.toNat - 48)
  else if 'a' ≤ c && c ≤ 'f' then some (c.toNat - 87)
  else if 'A' ≤ c && c ≤ 'F' then some (c.toNat - 55)
  else none

end Hypermedia.Text
