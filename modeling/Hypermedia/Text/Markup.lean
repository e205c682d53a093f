/-!
# Texts in markup

`escape` writes a text so that it can stand in a page: the five characters with a meaning
there become references. `unescape` decodes the references, and undoes `escape`.
-/

namespace Hypermedia.Text

/-- The reference for a character with a meaning in markup, every other character as it
is. -/
def escapeChar (c : Char) : List Char :=
  if c == '&' then "&amp;".toList
  else if c == '<' then "&lt;".toList
  else if c == '>' then "&gt;".toList
  else if c == '"' then "&#34;".toList
  else if c == Char.ofNat 39 then "&#39;".toList
  else [c]

/-- The characters of a text as they are written in a page. -/
def escapeChars (s : List Char) : List Char := s.flatMap escapeChar

/-- A text as it is written in a page. -/
def escape (s : String) : String := String.ofList (escapeChars s.toList)

/-- Decode the five references; everything else stands for itself. -/
def unescapeChars : List Char → List Char
  | '&' :: 'a' :: 'm' :: 'p' :: ';' :: r => '&' :: unescapeChars r
  | '&' :: 'l' :: 't' :: ';' :: r => '<' :: unescapeChars r
  | '&' :: 'g' :: 't' :: ';' :: r => '>' :: unescapeChars r
  | '&' :: '#' :: '3' :: '4' :: ';' :: r => '"' :: unescapeChars r
  | '&' :: '#' :: '3' :: '9' :: ';' :: r => Char.ofNat 39 :: unescapeChars r
  | c :: r => c :: unescapeChars r
  | [] => []

end Hypermedia.Text
