import Hypermedia.Graph.Entity

/-!
# Shelves

A shelf keeps records in memory: each has a key, a class, a list of the types that it is
queried by, and attributes that hold values or refer to other records. It can be read only.
-/

namespace Hypermedia

/-- A record on a shelf. Its id is its attribute `id`. -/
structure ShelfRecord where
  key : String
  model : Option RecordClass
  types : List String
  attributes : List (String × Given String)

namespace ShelfRecord

/-- What an attribute holds. -/
def attribute? (r : ShelfRecord) (name : String) : Option (Given String) :=
  Fields.get? name r.attributes

/-- The value of an attribute. A reference reads as an object. -/
def value (r : ShelfRecord) (name : String) : Value :=
  match r.attribute? name with
  | some (.value v) => v
  | some (.record key) => .foreign 0 key
  | some (.records keys) => .list (keys.map (.foreign 0))
  | none => .null

/-- Give something to an attribute. -/
def set (r : ShelfRecord) (name : String) (x : Given String) : ShelfRecord :=
  { r with attributes := (name, x) :: r.attributes.filter fun e => e.1 != name }

/-- What an attribute leads to. A value is something, but leads to no record. -/
def related? (r : ShelfRecord) (name : String) : Option (Related String) :=
  (r.attribute? name).map fun x =>
    match x with
    | .value .null => .nothing
    | .value _ => .many []
    | .record key => .one key
    | .records keys => .many keys

end ShelfRecord

/-- Records in order. -/
abbrev Shelf := List ShelfRecord

namespace Shelf

/-- The record of a key. -/
def record (s : Shelf) (key : String) : Except Fault ShelfRecord :=
  match s.find? fun r => r.key == key with
  | some r => .ok r
  | none => .error (.noKey key)

/-- The records of a type. -/
def ofType (s : Shelf) (t : ResourceType) : List ShelfRecord :=
  s.filter fun r => r.types.contains t.name

/-- Change the record of a key. -/
def change (s : Shelf) (key : String) (f : ShelfRecord → ShelfRecord) : Shelf :=
  s.map fun r => if r.key == key then f r else r

/-- A shelf as a storage of keys. Ids are compared as they read. -/
def storage (s : Shelf) : Storage (Except Fault) String where
  classOf key := (s.find? fun r => r.key == key).bind ShelfRecord.model
  query t := .ok ((s.ofType t).map ShelfRecord.key)
  get t id := .ok
    (((s.ofType t).find? fun r => (r.value "id").display == id.display).map ShelfRecord.key)
  identity key := (s.record key).map fun r => r.value "id"
  value key name := (s.record key).map fun r => r.value name
  related key rel := (s.record key).map fun r =>
    (r.related? rel.name).getD (if rel.isMany then .many [] else .nothing)
  source key name := do
    let r ← s.record key
    match r.related? name with
    | none => .error (.noAttribute s!"'object' object has no attribute '{name}'")
    | some .nothing => .ok []
    | some x => x.asMany

end Shelf

end Hypermedia
