import Hypermedia.Naming
import Hypermedia.Text.Percent
import Hypermedia.Text.Punycode

/-!
# Addresses in ASCII

An address as it is sent in a header: the name of the host in lower case and in the ASCII
form of such names, and everything after it with percent escapes.
-/

namespace Hypermedia.Text

/-- May a character stand in the scheme of an address? -/
def isSchemeChar (c : Char) : Bool :=
  c.toNat < 128 && (c.isAlphanum || c == '+' || c == '-' || c == '.')

/-- The scheme, the authority and the rest of an address that has all of them. -/
def splitUri? (s : List Char) : Option (List Char × List Char × List Char) :=
  let scheme := s.takeWhile isSchemeChar
  match scheme, s.drop scheme.length with
  | c :: _, ':' :: '/' :: '/' :: rest =>
    let isInside (c : Char) : Bool := c != '/' && c != '?' && c != '#'
    if c.isAlpha then some (scheme, rest.takeWhile isInside, rest.dropWhile isInside) else none
  | _, _ => none

/-- The name of a host. -/
def hostText (s : List Char) : List Char :=
  let name := (Text.lower (String.ofList s)).toList
  ['.'].intercalate ((Naming.splitOn '.' name).map Punycode.label)

/-- The name of the host in an authority, and what follows it. -/
def authorityText (s : List Char) : List Char :=
  let isHostChar (c : Char) : Bool := c != ':'
  hostText (s.takeWhile isHostChar) ++ s.dropWhile isHostChar

/-- An address in ASCII. -/
def uriText (s : String) : String :=
  match splitUri? s.toList with
  | some (scheme, authority, rest) =>
    let scheme := String.ofList (scheme.map Char.toLower)
    s!"{scheme}://{String.ofList (authorityText authority)}" ++ percentEncode (String.ofList rest)
  | none => percentEncode s

end Hypermedia.Text
