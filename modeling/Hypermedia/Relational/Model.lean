import Hypermedia.Relational.Table
import Hypermedia.Schema.Registry

/-!
# Models

A model says how the records of a class are kept: in which tables, under which columns, and
how they are linked to records of other models. Models are declared one after the other; a
model that extends another one shares its tables, or adds a table of its own
(`Catalog.ofDeclarations`). `Model.describe` is the resource type of a model.
-/

namespace Hypermedia

/-- How a link between records is kept. -/
inductive LinkKind where
  /-- A column of the record refers to the key of the other record. -/
  | reference (column : String)
  /-- A column of the other records refers to the key of the record. -/
  | members (column : String)
  /-- A table of pairs of keys. -/
  | pairs (table own other : String)
  deriving DecidableEq, Repr, Inhabited

/-- A link from the records of a model to those of another, by name. -/
structure Link where
  name : String
  target : String
  kind : LinkKind
  isList : Bool
  /-- The link that leads back. -/
  inverse : Option String
  /-- Are linked records deleted with the record? -/
  cascades : Bool
  /-- Are linked records deleted when they are no longer linked? -/
  owns : Bool
  deriving DecidableEq, Repr, Inhabited

/-- A link as it is declared. -/
structure LinkDeclaration where
  name : String
  target : String
  inverse : Option String := none
  /-- The name of a link back that the declaration adds to the target. -/
  inverseToAdd : Option String := none
  isList : Option Bool := none
  pairTable : Option String := none
  /-- Does a record of a tree refer to the record above it? -/
  isUpward : Bool := false
  cascade : List String := []

/-- A model as it is declared. Without a table a model that extends another shares its
table. -/
structure ModelDeclaration where
  name : String
  table : Option String := none
  base : Option String := none
  columns : List Column
  links : List LinkDeclaration := []
  discriminator : Option String := none
  identity : Option String := none

/-- A column of a model with the table that holds it. -/
structure MappedColumn where
  table : String
  column : Column
  deriving Inhabited

/-- How the records of a class are kept. -/
structure Model where
  name : String
  recordClass : RecordClass
  /-- The names of the model and of those that it extends, nearest first. -/
  lineage : List String
  /-- The tables, from the one that every record has to the most special. -/
  tables : List String
  columns : List MappedColumn
  discriminator : Option String
  identity : Option String
  /-- Does the model share the tables of the one that it extends? -/
  isSingle : Bool
  links : List Link
  deriving Inhabited

namespace Model

/-- The table that every record of the model is in. -/
def rootTable (m : Model) : String := m.tables.headD ""

/-- The column of a name. -/
def column? (m : Model) (name : String) : Option MappedColumn :=
  m.columns.find? fun c => c.column.name == name

/-- The link of a name. -/
def link? (m : Model) (name : String) : Option Link := m.links.find? fun l => l.name == name

/-- The columns of the key. -/
def keyColumns (m : Model) : List Column :=
  (m.columns.filter fun c => c.column.isKey && c.table == m.rootTable).map MappedColumn.column

/-- The names of the columns of the key. -/
def keyNames (m : Model) : List String := m.keyColumns.map Column.name

/-- Does the model extend another, or is it the same? -/
def extends_ (m : Model) (name : String) : Bool := m.lineage.contains name

end Model

/-- A table of pairs: its name and the columns that it refers to. -/
structure PairTable where
  name : String
  left : String × String
  right : String × String

namespace PairTable

/-- The name of the column that refers to a column: the table in the singular, and the
column. -/
def columnName (reference : String × String) : String :=
  let table := reference.1.toList
  let stem := if table.getLast? == some 's' then table.dropLast else table
  s!"{String.ofList stem}_{reference.2}"

/-- The columns of the table. -/
def columns (t : PairTable) : List Column :=
  [t.left, t.right].map fun r =>
    { name := columnName r, type := .integer, isKey := true, refersTo := some r }

end PairTable

/-- The models and the tables in which they are kept, on a machine that has room for so many bytes
as `hasRoom` says. -/
structure Catalog where
  models : List Model
  tables : List Table
  hasRoom : Nat → Bool := fun _ => true
  deriving Inhabited

namespace Catalog

/-- The model of a name. -/
def model? (c : Catalog) (name : String) : Option Model := c.models.find? fun m => m.name == name

/-- The model of a class of records. -/
def ofClass? (c : Catalog) (k : RecordClass) : Option Model :=
  c.models.find? fun m => m.recordClass == k

/-- The models whose records are records of a model. -/
def descendants (c : Catalog) (name : String) : List Model :=
  c.models.filter fun m => m.extends_ name

end Catalog

namespace ModelDeclaration

/-- The table that a model declares. -/
def ownTable (d : ModelDeclaration) : String := d.table.getD (Naming.singularName d.name)

end ModelDeclaration

namespace Catalog

/-- The column, if any, of some tables that refers to one of other tables. -/
def referring? (tables : List Table) (froms tos : List String) : Option Column :=
  (tables.filter fun t => froms.contains t.name).findSome? fun t =>
    t.columns.find? fun c =>
      match c.refersTo with
      | some (table, _) => tos.contains table && !c.isKey
      | none => false

/-- How a declared link between models is kept. -/
def linkKind (tables : List Table) (pairs : List PairTable) (m target : Model)
    (d : LinkDeclaration) : LinkKind :=
  match d.pairTable.bind fun name => pairs.find? fun p => p.name == name with
  | some p =>
    let (own, other) := if m.tables.contains p.left.1 then (p.left, p.right) else (p.right, p.left)
    .pairs p.name (PairTable.columnName own) (PairTable.columnName other)
  | none =>
    let up := referring? tables m.tables target.tables
    let down := referring? tables target.tables m.tables
    let isTree := m.rootTable == target.rootTable
    match up, down with
    | some c, _ => if isTree && !d.isUpward then .members c.name else .reference c.name
    | none, some c => .members c.name
    | none, none => .members ""

/-- The link of a declaration. -/
def linkOf (tables : List Table) (pairs : List PairTable) (m target : Model)
    (d : LinkDeclaration) : Link :=
  let kind := linkKind tables pairs m target d
  let toMany :=
    match kind with
    | .reference _ => false
    | _ => true
  { name := d.name, target := target.name, kind, isList := d.isList.getD toMany
    inverse := d.inverse.orElse fun _ => d.inverseToAdd
    cascades := d.cascade.contains "all" || d.cascade.contains "delete"
    owns := d.cascade.contains "delete-orphan" }

/-- The link back that a declaration adds to its target. -/
def addedLink (name : String) (m : Model) (l : Link) : Link :=
  let (kind, isList) :=
    match l.kind with
    | .reference c => (LinkKind.members c, true)
    | .members c => (.reference c, false)
    | .pairs t own other => (.pairs t other own, true)
  { name, target := m.name, kind, isList, inverse := some l.name, cascades := false, owns := false }

/-- A model without its links, after the models declared before. -/
def modelOf (before : List Model) (d : ModelDeclaration) : Model :=
  let number := before.length + 1
  match d.base.bind fun b => before.find? fun m => m.name == b with
  | none =>
    { name := d.name, recordClass := { name := d.name, lineage := [number] }
      lineage := [d.name], tables := [d.ownTable]
      columns := d.columns.map fun column => { table := d.ownTable, column }
      discriminator := d.discriminator, identity := d.identity, isSingle := false, links := [] }
  | some base =>
    let table := d.table.getD (base.tables.getLastD "")
    let new := d.columns.filter fun c => (base.column? c.name).isNone
    { name := d.name
      recordClass := { name := d.name, lineage := number :: base.recordClass.lineage }
      lineage := d.name :: base.lineage
      tables := if d.table.isSome then base.tables ++ [table] else base.tables
      columns := base.columns ++ new.map fun column => { table, column }
      discriminator := d.discriminator.orElse fun _ => base.discriminator
      identity := d.identity, isSingle := d.table.isNone, links := [] }

/-- Add the columns of a model to the table that holds them. -/
def addColumns (tables : List Table) (m : Model) (d : ModelDeclaration) : List Table :=
  let name := m.tables.getLastD ""
  if tables.any fun t => t.name == name then
    tables.map fun t =>
      if t.name == name then
        let new := d.columns.filter fun c => !t.columns.any fun old => old.name == c.name
        { t with columns := t.columns ++ new }
      else t
  else tables ++ [{ name, columns := d.columns, rows := [] }]

/-- Models without links and the tables that hold them. -/
def skeleton (ds : List ModelDeclaration) : List Model × List Table :=
  ds.foldl (fun (ms, ts) d =>
    let m := modelOf ms d
    (ms ++ [m], addColumns ts m d)) ([], [])

/-- The catalog of declared models and tables of pairs. A model has the links of those that
it extends, then its own, then those that others add to it. -/
def ofDeclarations (ds : List ModelDeclaration) (pairs : List PairTable) : Catalog :=
  let (ms, ts) := skeleton ds
  let named (name : String) : Model := (ms.find? fun m => m.name == name).getD default
  let own (d : ModelDeclaration) : List (LinkDeclaration × Link) :=
    d.links.map fun l => (l, linkOf ts pairs (named d.name) (named l.target) l)
  let added (name : String) : List Link :=
    ds.flatMap fun d =>
      (own d).filterMap fun (l, link) =>
        if l.target == name then l.inverseToAdd.map fun back => addedLink back (named d.name) link
        else none
  let linksOf (m : Model) : List Link :=
    let lineage := m.lineage.reverse
    let declared := lineage.flatMap fun name =>
      (ds.filter fun d => d.name == name).flatMap fun d => (own d).map (·.2)
    declared ++ lineage.flatMap added
  { models := ms.map fun m => { m with links := linksOf m }
    tables := ts ++ pairs.map fun p => { name := p.name, columns := p.columns, rows := [] } }

end Catalog

/-- How a model is registered. -/
structure ModelOptions where
  name : Option String := none
  plural : Option String := none
  isAbstract : Bool := false
  supertype : Option String := none
  hiddenColumns : List String := []
  hiddenLinks : List String := []
  finders : List Finder := []
  validators : List Validator := []

namespace Model

/-- Has a list of permissions a letter? -/
def permits (permissions : String) (letter : Char) : Visibility :=
  if permissions.toList.contains letter then .shown else .hidden

/-- The property of a column. Keys, references and the discriminator are not written by
clients; a column that may not be empty and has no default is required. -/
def property (m : Model) (hidden : List String) (c : Column) : Property :=
  let permissions := if hidden.contains c.name then "" else c.permissions
  let isFixed := c.isKey || c.refersTo.isSome || m.discriminator == some c.name
  { name := c.name, reader := permits permissions 'r'
    writer := if isFixed then .hidden else permits permissions 'w'
    required := !c.isNullable && !c.isKey && c.refersTo.isNone && c.default.isNone &&
      c.storeDefault.isNone }

/-- The relationship of a link. A link through a column that may not be empty is
required. -/
def relationship (c : Catalog) (m : Model) (hidden : List String) (l : Link) : Relationship :=
  let visibility : Visibility := if hidden.contains l.name then .hidden else .shown
  let target := ((c.model? l.target).map Model.recordClass).getD default
  { name := l.name, target := .model target, cardinality := if l.isList then .many else .one
    inverse := l.inverse, reader := visibility, writer := visibility
    required :=
      match l.kind with
      | .reference column => ((m.column? column).map fun c => !c.column.isNullable).getD false
      | _ => false }

/-- The resource type of a model. The type of the model that it extends, if it is
registered, is the supertype. -/
def describe (c : Catalog) (r : Registry) (m : Model) (o : ModelOptions) : ResourceType :=
  let base := (m.lineage.tail.head?.bind c.model?).bind fun b => r.typeOf? b.recordClass
  { name := o.name.getD m.name
    properties := m.columns.map fun x => m.property o.hiddenColumns x.column
    relationships := m.links.map (m.relationship c o.hiddenLinks)
    finders := o.finders, isAbstract := o.isAbstract
    supertype := o.supertype.orElse fun _ => base.map ResourceType.name
    model := some m.recordClass, validators := o.validators, plural := o.plural }

end Model

/-- Register models by their names, one after the other. -/
def Catalog.registerAll (c : Catalog) (options : List (String × ModelOptions)) :
    Except Fault Registry :=
  options.foldlM (fun r o =>
    match c.model? o.1 with
    | none => .ok r
    | some m => do
      let (r, t) := r.register (m.describe c r o.2)
      let _ ← t
      pure r) .empty

end Hypermedia
