import Hypermedia.Text.Printable

/-!
# Quoted texts

The literal form of a text: between single quotes, or double quotes when it holds a single
quote and no double one, with a backslash before the backslash and the quote, and escapes
for everything that does not print.
-/

namespace Hypermedia.Text

/-- The single quote. -/
def singleQuote : Char := Char.ofNat 39

/-- The lower-case hexadecimal digits of `n`, at least `width` of them. -/
def hexDigits (width n : Nat) : List Char :=
  let ds := Nat.toDigits 16 n
  List.replicate (width - ds.length) '0' ++ ds

/-- The escape of a character that does not print: the shortest form that holds its code. -/
def escapeCode (c : Char) : List Char :=
  let n := c.toNat
  if n < 0x100 then '\\' :: 'x' :: hexDigits 2 n
  else if n < 0x10000 then '\\' :: 'u' :: hexDigits 4 n
  else '\\' :: 'U' :: hexDigits 8 n

/-- A character between the given quotes. -/
def quoteChar (quote c : Char) : List Char :=
  if c == quote || c == '\\' then ['\\', c]
  else if c == '\t' then ['\\', 't']
  else if c == '\n' then ['\\', 'n']
  else if c == '\r' then ['\\', 'r']
  else if isPrintable c then [c]
  else escapeCode c

/-- The quote to write a text with. -/
def quoteFor (s : List Char) : Char :=
  if s.contains singleQuote && !s.contains '"' then '"' else singleQuote

/-- The literal form of a text. -/
def quoted (s : String) : String :=
  let q := quoteFor s.toList
  String.ofList (q :: s.toList.flatMap (quoteChar q) ++ [q])

/-- The literal form of bytes: like a text of their codes, but only ASCII prints. -/
def quotedBytes (bytes : List UInt8) : String :=
  let s := bytes.map fun b => Char.ofNat b.toNat
  let q := quoteFor s
  let byte (c : Char) : List Char := if c.toNat < 127 then quoteChar q c else escapeCode c
  String.ofList ('b' :: q :: s.flatMap byte ++ [q])

end Hypermedia.Text
