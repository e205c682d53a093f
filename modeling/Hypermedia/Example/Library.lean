import Hypermedia.Api.Site

/-!
# A small library

Authors write books; a book cannot be without its author. Categories form a tree. Dogs are
the only animals that there are. The name of an author may not be changed to capitals, and
permanent books cannot be destroyed.
-/

namespace Hypermedia.Library

/-- Authors with their books. -/
def author : ModelDeclaration where
  name := "Author"
  table := some "authors"
  columns :=
    [{ name := "id", type := .integer, isKey := true, isNullable := false },
     { name := "name", type := .string, isNullable := false },
     { name := "password", type := .string, default := some (.text ""), permissions := "" }]
  links := [{ name := "books", target := "Book", inverse := some "author" }]

/-- Books with their author. -/
def book : ModelDeclaration where
  name := "Book"
  table := some "books"
  columns :=
    [{ name := "id", type := .integer, isKey := true, isNullable := false },
     { name := "title", type := .string },
     { name := "published", type := .date },
     { name := "author_id", type := .integer, isNullable := false
       refersTo := some ("authors", "id") }]
  links := [{ name := "author", target := "Author", inverse := some "books" }]

/-- The tree of categories. -/
def category : ModelDeclaration where
  name := "Category"
  table := some "categories"
  columns :=
    [{ name := "id", type := .integer, isKey := true, isNullable := false },
     { name := "name", type := .string, default := some (.text "") },
     { name := "parent_id", type := .integer, refersTo := some ("categories", "id") }]
  links :=
    [{ name := "parent", target := "Category", inverse := some "children", isUpward := true },
     { name := "children", target := "Category", inverse := some "parent" }]

/-- Animals of all kinds. -/
def animal : ModelDeclaration where
  name := "Animal"
  table := some "animals"
  columns :=
    [{ name := "id", type := .integer, isKey := true, isNullable := false },
     { name := "name", type := .string, default := some (.text "") },
     { name := "kind", type := .string }]
  discriminator := some "kind"
  identity := some "animal"

/-- Dogs, which are good unless told otherwise. -/
def dog : ModelDeclaration where
  name := "Dog"
  base := some "Animal"
  columns := [{ name := "good", type := .boolean, default := some (.bool true) }]
  identity := some "dog"

/-- How the records of the library are kept. -/
def catalog : Catalog := .ofDeclarations [author, book, category, animal, dog] []

/-- Capitals are refused. -/
def noShouting : Rule :=
  .when { field := "name", test := .shouting, operand := .null }
    (.object [("name", .text "name must not be upper case")])

/-- Permanent books stay. -/
def permanentBooks : Rule :=
  .when { field := "title", test := .equals, operand := .text "Permanent" }
    (.object [("title", .text "Permanent books can't be destroyed")])

/-- The rules of the library. -/
def rules : RuleBook := [("no_shouting", noShouting), ("permanent_books", permanentBooks)]

/-- The books of an author that have no title. -/
def untitledBooks : Finder where
  name := "untitled_books"
  target := .named "Book"
  rule := .select (some "books") (some { field := "title", test := .falsy, operand := .null }) false

/-- The types of the library. -/
def registry : Except Fault Registry :=
  catalog.registerAll
    [("Author", { validators := [.of "no_shouting" [.update]], finders := [untitledBooks] }),
     ("Book", { validators := [.of "permanent_books" [.destroy]] }),
     ("Category", {}),
     ("Animal", { isAbstract := true }),
     ("Dog", {})]

/-- The library as a site. -/
def site (settings : Settings) (detail : Detail) (mount : String) : Except Fault Site := do
  let registry ← registry
  Site.serve catalog registry rules settings detail mount

end Hypermedia.Library
