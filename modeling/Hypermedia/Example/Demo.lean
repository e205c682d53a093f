import Hypermedia.Api.Site

/-!
# A library to look around in

Authors have an address for mail, which clients can write but not read; it has to be one
when an author is created or updated. The database begins with twenty authors of three
books each, of which the first has no title yet.
-/

namespace Hypermedia.Demo

/-- Authors with their books. -/
def author : ModelDeclaration where
  name := "Author"
  table := some "Authors"
  columns :=
    [{ name := "id", type := .integer, isKey := true, isNullable := false },
     { name := "name", type := .string, isNullable := false },
     { name := "email", type := .string, default := some (.text ""), permissions := "w" }]
  links := [{ name := "books", target := "Book", inverse := some "author" }]

/-- Books with their author. -/
def book : ModelDeclaration where
  name := "Book"
  table := some "Books"
  columns :=
    [{ name := "id", type := .integer, isKey := true, isNullable := false },
     { name := "title", type := .string, default := some (.text "") },
     { name := "author_id", type := .integer, isNullable := false
       refersTo := some ("Authors", "id") }]
  links := [{ name := "author", target := "Author", inverse := some "books" }]

/-- How the records are kept. -/
def catalog : Catalog := .ofDeclarations [author, book] []

/-- The verdict on a text as an address for mail. -/
def addressVerdict (s : String) : Except Fault Value :=
  if s.isEmpty || s.toList.contains '@' then .ok .null
  else .ok (.object [("email", .text s!"Invalid email address {s}")])

/-- An address for mail has an at sign. -/
def validEmail : Rule where
  field := "email"
  verdict
    | .text s => addressVerdict s
    | .torn t => addressVerdict t.display
    | _ => .ok .null

/-- The rules for the records. -/
def rules : RuleBook := [("valid_email", validEmail)]

/-- The books of an author that have no title. -/
def unfinished : Finder where
  name := "unfinished"
  target := .named "Book"
  rule := .select (some "books") (some { field := "title", test := .falsy, operand := .null }) false

/-- The types of the records. -/
def registry : Except Fault Registry :=
  catalog.registerAll
    [("Author",
        { validators := [.of "valid_email" [.create, .update]], finders := [unfinished] }),
     ("Book", {})]

/-- The site at a host. -/
def site (host : String) (detail : Detail) : Except Fault Site := do
  let registry ← registry
  let settings := Settings.ofApp [("URL_ROOT", .text s!"http://{host}:5000")]
  Site.serve catalog registry rules settings detail ""

/-- The row of an author. -/
def authorRow (i : Nat) : Row :=
  [("name", .text s!"author{i}"), ("email", .text s!"author{i}@example.com")]

/-- The row of a book of an author. -/
def bookRow (i j : Nat) : Row :=
  [("title", .text (if j = 0 then "" else s!"book {i}.{j}")), ("author_id", .int (i + 1))]

/-- Insert rows into a table. -/
def insertAll (table : String) (rows : List Row) (db : Database) : Except Fault Database :=
  rows.foldlM (fun db row => (db.insert table row).map (·.1)) db

/-- The database at the beginning. -/
def start : Except Fault Database := do
  let db ← insertAll "Authors" ((List.range 20).map authorRow) catalog.tables
  insertAll "Books"
    ((List.range 20).flatMap fun i => (List.range 3).map fun j => bookRow i j) db

end Hypermedia.Demo
