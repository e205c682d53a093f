import Hypermedia.Text.Case

/-!
# Singular and plural names

The singular name of a type is the last part of its dotted name in snake case
(`singularName`), the plural name pluralises the last word of it (`pluralName?`). The rules
of English nouns are a list of endings with what replaces them, tried in order
(`pluralRules`); an empty word has no plural.
-/

namespace Hypermedia.Naming

/-- The parts of a list of characters between separators. -/
def splitOn (separator : Char) : List Char → List (List Char)
  | [] => [[]]
  | c :: r =>
    match splitOn separator r with
    | [] => [[c]]
    | w :: ws => if c == separator then [] :: w :: ws else (c :: w) :: ws

/-- Put an underscore before every ASCII capital that does not come first or after an
underscore; `before` is the character before. -/
def spaced (before : Option Char) : List Char → List Char
  | [] => []
  | c :: r =>
    let starts := c.isUpper && before.isSome && before != some '_'
    (if starts then ['_', c] else [c]) ++ spaced (some c) r

/-- The name of one thing of a type: `BookOrder` becomes `book_order`. -/
def singularName (name : String) : String :=
  Text.lower (String.ofList (spaced none ((splitOn '.' name.toList).getLast?.getD [])))

/-- How a word becomes plural: which words the rule is for, how many characters it drops
from the end and what it adds. -/
structure Rule where
  applies : List Char → Bool
  drops : Nat
  adds : String

/-- Does the word end so? -/
def endsWith (ending : String) (word : List Char) : Bool := ending.toList.isSuffixOf word

/-- Words that end in one of these. -/
def ending (endings : List String) (drops : Nat) (adds : String) : Rule :=
  { applies := fun w => endings.any (endsWith · w), drops, adds }

/-- Exactly these words. -/
def exactly (words : List String) (drops : Nat) (adds : String) : Rule :=
  { applies := fun w => words.contains (String.ofList w), drops, adds }

/-- Is the character a vowel? -/
def isVowel (c : Char) : Bool := ['a', 'e', 'i', 'o', 'u'].contains c

/-- The last character but one. -/
def beforeLast? (w : List Char) : Option Char := w.reverse[1]?

/-- A word in a consonant and `y`. -/
def endsInConsonantY (w : List Char) : Bool :=
  endsWith "y" w &&
    (match beforeLast? w with
    | some c => !isVowel c
    | none => false)

/-- A word in `o` after a vowel. -/
def endsInVowelO (w : List Char) : Bool :=
  endsWith "o" w && ((beforeLast? w).map isVowel).getD false

/-- The rules of English nouns; the first that applies counts. -/
def pluralRules : List Rule :=
  [ ending ["fish", "sheep", "deer", "moose", "series", "species", "news"] 0 "",
    exactly ["human", "german", "roman", "norman", "shaman", "ottoman", "talisman"] 0 "s",
    ending ["man"] 2 "en",
    ending ["mouse", "louse"] 4 "ice",
    ending ["goose"] 4 "eese",
    ending ["tooth"] 4 "eeth",
    ending ["foot"] 3 "eet",
    ending ["child"] 0 "ren",
    ending ["person"] 4 "ople",
    exactly ["ox"] 0 "en",
    ending ["datum", "stratum", "erratum", "bacterium"] 2 "a",
    exactly ["criterion", "phenomenon"] 2 "a",
    exactly ["alumnus", "nucleus", "locus", "stimulus", "bacillus"] 2 "i",
    ending ["sis", "xis", "cis"] 2 "es",
    exactly ["alias", "atlas", "bias", "canvas", "chaos", "gas", "iris", "lens"] 0 "es",
    ending ["ss", "us"] 0 "es",
    ending ["zz"] 0 "es",
    exactly ["waltz", "quartz"] 0 "es",
    ending ["z"] 0 "zes",
    ending ["ch", "sh", "x"] 0 "es",
    ending ["elf", "alf", "olf", "arf"] 1 "ves",
    { applies := fun w => endsWith "eaf" w && !endsWith "deaf" w, drops := 1, adds := "ves" },
    ending ["nife", "life", "wife"] 2 "ves",
    { applies := endsInConsonantY, drops := 1, adds := "ies" },
    exactly ["photo", "piano", "memo", "logo", "macro", "micro", "solo", "auto", "pro", "euro",
      "demo", "repo", "kilo", "disco", "casino", "dynamo", "tempo", "turbo", "o"] 0 "s",
    { applies := endsInVowelO, drops := 0, adds := "s" },
    ending ["o"] 0 "es" ]

/-- Has the text a character with case? -/
def hasCase (w : List Char) : Bool :=
  w.any fun c => Text.isUpper c || Text.isLower c || Text.isTitle c

/-- The plural of a word; a word without case gets a capital. -/
def plural? (word : List Char) : Option (List Char) :=
  if word.isEmpty then none
  else
    match pluralRules.find? fun r => r.applies word with
    | some r => some (word.take (word.length - r.drops) ++ r.adds.toList)
    | none => some (word ++ [if hasCase word then 's' else 'S'])

/-- Everything up to the last underscore, and the last word. -/
def lastWord (name : List Char) : List Char × List Char :=
  let word := (name.reverse.takeWhile (· != '_')).reverse
  (name.take (name.length - word.length), word)

/-- The name of several things: only the last word of the singular name changes. An
underscore that the name begins with goes, when nothing but the word follows it. -/
def pluralName? (singular : String) : Option String :=
  let (front, word) := lastWord singular.toList
  let front := if front.length ≤ 1 then [] else front
  (plural? word).map fun p => String.ofList (front ++ p)

/-- The suffix of an address for a format; none for the empty format. -/
def formatSuffix : Option String → String
  | some ext => if ext == "" then "" else "." ++ ext
  | none => ""

end Hypermedia.Naming
