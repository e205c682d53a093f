import Hypermedia.Proofs.Graph.Referring
import Hypermedia.Proofs.Route.Formed
import Hypermedia.Proofs.Route.Methods

/-!
# What clients may attach

There are two ways to change a relationship to many: to give it something in a payload, and to
create a member of the collection below its owner, which attaches the new record. A payload gives
nothing to what clients may not change. The collection asks whether its scope is open and whether
clients may follow the relationship, but not whether they may change it
(`Tree.attaches_of_mem_routes`): records are attached to a relationship that may be followed but
not changed (`Tree.attaches_unwritable_books`).
-/

namespace Hypermedia

open Effect

/-- Clients may change every relationship to many that they may follow. -/
def Registry.WritesFollowed (r : Registry) : Prop :=
  ∀ t ∈ r.types, ∀ rel ∈ t.readableRelationships, rel.isMany = true → rel.isWritable = true

namespace WritableGraph

variable {σ R : Type}

/-- Values are only given under the names of properties that clients may write. -/
theorem get?_mapProperties_eq_none {t : ResourceType} {name : String}
    (h : ∀ q ∈ t.writableProperties, q.name ≠ name) (fields : List (String × Value)) :
    Fields.get? name (mapProperties t fields : Payload R).given = none := by
  refine List.foldlRecOn (motive := fun p : Payload R => Fields.get? name p.given = none) _ _ rfl
    fun p hp q hq => ?_
  split
  · rw [Payload.give, Fields.get?_put, if_neg (h q hq).symm]
    exact hp
  · exact hp

/-- A payload gives nothing to a relationship that clients may not change, unless something else
that they may write has its name. -/
theorem get?_given_eq_none {w : WritableGraph (Effect σ) R} {t : ResourceType} {rel : Relationship}
    (hrel : rel.isWritable = false) (hproperties : ∀ q ∈ t.writableProperties, q.name ≠ rel.name)
    (hnames : ∀ other ∈ t.relationships, other.name = rel.name → other = rel)
    {fields : List (String × Value)} {s z : σ} {p : Payload R}
    (h : Gives (w.mapPayload t fields) s p z) : Fields.get? rel.name p.given = none := by
  rw [mapPayload_eq] at h
  rw [get?_given_of_foldlM h fun other hother hname => ?_]
  · exact get?_mapProperties_eq_none hproperties fields
  · obtain ⟨hmem, hwritable⟩ := List.mem_filter.1 hother
    rw [hnames other hmem hname, hrel] at hwritable
    cases hwritable

end WritableGraph

namespace Tree

/-- A payload gives nothing to a relationship that clients may not change, if its name is its own.
The collection below a relationship takes new members exactly if its scope is open, whoever may
change the relationship. So new members are only attached to what clients may change if they may
change all that they may follow. -/
theorem attaches_of_mem_routes {σ R : Type} (w : WritableGraph (Effect σ) R) {maxDepth : Int}
    {rootPath : String} {table : RouteTable}
    (h : routes w.registry maxDepth rootPath = .ok table) :
    (∀ (t : ResourceType) (rel : Relationship) (fields : List (String × Value)) (s z : σ)
      (p : Payload R), rel.isWritable = false →
      (∀ q ∈ t.writableProperties, q.name ≠ rel.name) →
      (∀ other ∈ t.relationships, other.name = rel.name → other = rel) →
      Gives (w.mapPayload t fields) s p z → Fields.get? rel.name p.given = none) ∧
    ∀ x ∈ table.routes, ∀ target param readOnly parent rel, x.kind = .collection →
      x.scope = some (.relationship target param readOnly parent rel) →
      (.post ∈ x.methods ↔ (Scope.relationship target param readOnly parent rel).IsOpen) ∧
      parent.memberType ∈ w.registry.types ∧ rel ∈ parent.memberType.readableRelationships ∧
      (w.registry.WritesFollowed → rel.isWritable = true) := by
  refine ⟨fun t rel fields s z p hrel hproperties hnames hp =>
    WritableGraph.get?_given_eq_none hrel hproperties hnames hp, ?_⟩
  intro x hx target param readOnly parent rel hkind hscope
  obtain ⟨-, hpost, -⟩ := methods_of_mem_routes h hx
  obtain ⟨hformed, -⟩ := formed_of_mem_routes h hx _ hscope
  obtain ⟨hparent, hrel, hmany, -⟩ := hformed
  have hmem := hparent.memberType_mem
  refine ⟨hpost.trans ⟨fun hopen => ?_, fun hopen => ⟨hkind, _, hscope, hopen⟩⟩, hmem, hrel,
    fun hwrites => hwrites _ hmem rel hrel hmany⟩
  obtain ⟨-, s, hs, hopen⟩ := hopen
  obtain rfl := Option.some.inj (hscope.symm.trans hs)
  exact hopen

/-! ## Authors whose books clients may not change -/

/-- Books that clients may follow but not change. -/
def fixedBooks : Relationship := { name := "books", target := .named "Book", writer := .hidden }

/-- Authors with their books. -/
def authorType : ResourceType := { name := "Author", relationships := [fixedBooks] }

/-- A shelf with authors and books. -/
def fixedShelf : WritableGraph (Effect (List Value)) Nat :=
  { WritableGraph.desk with registry := ⟨[authorType, { name := "Book" }]⟩ }

/-- The way from the authors to their books. -/
def booksWay : Way where
  place := 0
  start := authorType
  steps := [{ place := 0, branch := .relationship fixedBooks, target := { name := "Book" } }]

/-- The books of an author are a collection. -/
theorem exists_books_route : ∃ table, routes fixedShelf.registry 3 "/root" = .ok table ∧
    ∃ x ∈ table.routes, x.spelling = "/authors/<rid:author_id>/books" ∧ x.kind = .collection ∧
      x.scope = some (.relationship { name := "Book" } "book_id" false
        (.type authorType "author_id") fixedBooks) := by
  obtain ⟨table, h⟩ : ∃ table, routes fixedShelf.registry 3 "/root" = .ok table := ⟨_, rfl⟩
  have hway : booksWay.IsIn fixedShelf.registry 3 :=
    { start := rfl, follows := ⟨rfl, rfl, rfl, trivial⟩, edges_nodup := by decide
      length_le := by decide }
  obtain ⟨x, hx, hkind, hpattern, hscope, -⟩ :=
    exists_collection_route fixedShelf.registry booksWay.spot
  have hauthor : paramName authorType [] 0 = "author_id" := by decide
  have hbook : paramName { name := "Book" } ["author_id"] 1 = "book_id" := by decide
  refine ⟨table, h, x, (mem_routes h).2 (.inr ⟨_, hway, hx⟩), ?_, hkind, ?_⟩
  · rw [Route.spelling, hpattern]
    decide +kernel
  · rw [hscope, ← hbook, ← hauthor]
    rfl

/-- The scope of the books of an author is open. -/
theorem isOpen_books : (Scope.relationship { name := "Book" } "book_id" false
    (.type authorType "author_id") fixedBooks).IsOpen :=
  ⟨by simp [Scope.chain, Scope.isFinder], rfl⟩

/-- A payload gives an author no books, but a book that is created below an author is one of
that author's. -/
theorem attaches_of_mem_routes_books : ∃ table,
    routes fixedShelf.registry 3 "/root" = .ok table ∧ fixedBooks.isWritable = false ∧
    (∃ p z,
      Gives (fixedShelf.mapPayload authorType [("books", .list [.int 1])]) [.text "blue"] p z ∧
      Fields.get? "books" p.given = none) ∧
    ∃ x ∈ table.routes, x.kind = .collection ∧ .post ∈ x.methods ∧
      ¬fixedShelf.registry.WritesFollowed := by
  obtain ⟨table, h, x, hx, -, hkind, hscope⟩ := exists_books_route
  obtain ⟨hpayload, hroutes⟩ := attaches_of_mem_routes fixedShelf h
  obtain ⟨hpost, -, -, hwrites⟩ := hroutes x hx _ _ _ _ _ hkind hscope
  refine ⟨table, h, rfl, ⟨_, _, rfl, hpayload authorType fixedBooks [("books", .list [.int 1])]
    [.text "blue"] _ _ rfl (by simp [authorType, ResourceType.writableProperties])
    (fun other hother _ => List.mem_singleton.1 hother) rfl⟩, x, hx, hkind, hpost.2 isOpen_books,
    fun hall => ?_⟩
  cases hwrites hall

/-- New books are created below an author, though clients may not change the books of authors. -/
theorem attaches_unwritable_books : ∃ table,
    routes fixedShelf.registry 3 "/root" = .ok table ∧
    ∃ x ∈ table.routes, x.spelling = "/authors/<rid:author_id>/books" ∧ x.kind = .collection ∧
      (∃ target param readOnly parent,
        x.scope = some (.relationship target param readOnly parent fixedBooks)) ∧
      fixedBooks.isWritable = false ∧ .post ∈ x.methods := by
  obtain ⟨table, h, x, hx, hspelling, hkind, hscope⟩ := exists_books_route
  obtain ⟨-, hpost, -⟩ := methods_of_mem_routes h hx
  exact ⟨table, h, x, hx, hspelling, hkind, ⟨_, _, _, _, hscope⟩, rfl,
    hpost.2 ⟨hkind, _, hscope, isOpen_books⟩⟩

end Tree

end Hypermedia
