import Hypermedia.Text.Quoted

/-!
# Torn texts

A character beyond the first plane has two units of UTF-16. A document may escape one of them
alone, and then the text is not one of characters. Such a text is kept by its code points, the
halves of characters among them (`TornText`). Inside a list or an object a half reads as its escape,
in a message as the replacement character; in bytes it cannot be written
(`TornText.encodingText`).
-/

namespace Hypermedia

namespace Text

/-- Is the code point one half of a character? -/
def isHalf (n : Nat) : Bool := 0xd800 ≤ n && n < 0xe000

/-- The character for what is no text. -/
def replacement : Char := Char.ofNat 0xfffd

/-- The character of a code point, and the replacement character for a half. -/
def charOf (n : Nat) : Char := if isHalf n then replacement else Char.ofNat n

/-- The characters of code points. -/
def ofPoints (points : List Nat) : String := String.ofList (points.map charOf)

/-- The code points of a text of characters. -/
def points (s : String) : List Nat := s.toList.map Char.toNat

end Text

/-- A text with halves of characters, by its code points. -/
structure TornText where
  points : List Nat
  inRange : ∀ n ∈ points, n < 0x110000
  isTorn : ∃ n ∈ points, Text.isHalf n = true
  deriving DecidableEq

namespace TornText

/-- The torn text of code points, if there are halves among them. -/
def of? (points : List Nat) : Option TornText :=
  if h : (∀ n ∈ points, n < 0x110000) ∧ ∃ n ∈ points, Text.isHalf n = true then
    some ⟨points, h.1, h.2⟩
  else none

/-- How a torn text reads in a message. -/
def display (t : TornText) : String := Text.ofPoints t.points

/-- A code point between the given quotes. -/
def quotePoint (quote : Char) (n : Nat) : List Char :=
  if Text.isHalf n then '\\' :: 'u' :: Text.hexDigits 4 n
  else Text.quoteChar quote (Char.ofNat n)

/-- The literal form of a torn text. -/
def quoted (t : TornText) : String :=
  let q := Text.quoteFor t.display.toList
  String.ofList (q :: t.points.flatMap (quotePoint q) ++ [q])

/-- What is told where a torn text has to be written in bytes: where the first halves stand. -/
def encodingText (t : TornText) : String :=
  let start := (t.points.takeWhile fun n => !Text.isHalf n).length
  let halves := (t.points.drop start).takeWhile Text.isHalf
  let place :=
    match halves with
    | [n] => s!"character '\\u{String.ofList (Text.hexDigits 4 n)}' in position {start}"
    | _ => s!"characters in position {start}-{start + halves.length - 1}"
  s!"'utf-8' codec can't encode {place}: surrogates not allowed"

end TornText

end Hypermedia
