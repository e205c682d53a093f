import Hypermedia.Column
import Hypermedia.Fields

/-!
# Tables and databases

A table has columns and rows; a row binds every column to a cell. `ColumnType.store` is the
form in which a value is kept and read again. `Table.insert`, `Table.update` and
`Table.delete` change rows; a change that leaves a cell empty that must not be, or repeats a
cell that has to be unique, is refused (`StoreFault.constraint`).
-/

namespace Hypermedia

/-- One more than the greatest integer that a store can hold, 63 binary digits without the
sign. -/
def storeIntegerBound : Int := 9223372036854775808

/-- An integer in the range of the store. -/
def storeInteger (n : Int) : Except Fault Value :=
  if -storeIntegerBound ≤ n ∧ n < storeIntegerBound then .ok (.int n)
  else .error (.overflow "Python int too large to convert to SQLite INTEGER")

/-- The greatest number of microseconds since 1970 that an interval can have in the store. -/
def maxIntervalMicros : Int := 253402300800000000

/-- The least number of microseconds since 1970 that an interval can have in the store. -/
def minIntervalMicros : Int := -62135596800000000

mutual

/-- Can a value be written as a document? -/
def Value.isDocument : Value → Bool
  | .null | .bool _ | .int _ | .float _ | .text _ | .torn _ => true
  | .list items => areDocuments items
  | .object fields => fieldsAreDocuments fields
  | _ => false

/-- Can all values be written as documents? -/
def Value.areDocuments : List Value → Bool
  | [] => true
  | v :: r => v.isDocument && areDocuments r

/-- Can all fields be written as documents? -/
def Value.fieldsAreDocuments : List (String × Value) → Bool
  | [] => true
  | (_, v) :: r => v.isDocument && fieldsAreDocuments r

end

/-- A value that the store cannot hold. -/
def unbindable : Except Fault Value := .error (.store .unbindable)

/-- A torn text has no bytes to be kept in. -/
def unencodable (t : TornText) : Except Fault Value := .error (.badValue t.encodingText)

/-- The form in which the store keeps a value without a declared type. -/
def storeAnything : Value → Except Fault Value
  | .bool b => .ok (.int (if b then 1 else 0))
  | .int n => storeInteger n
  | .float .nan => .ok .null
  | .date d => .ok (.text d.text)
  | .dateTime d => .ok (.text (d.text " "))
  | .null => .ok .null
  | .float x => .ok (.float x)
  | .text s => .ok (.text s)
  | .torn t => unencodable t
  | .bytes b => .ok (.bytes b)
  | _ => unbindable

/-- The form in which the store keeps a value of a column, which is also how it is read
again: numbers are doubles with ten places, times have no offset, a NaN is nothing. -/
def ColumnType.store (type : ColumnType) (v : Value) : Except Fault Value :=
  match type, v with
  | .json, v => if v.isDocument then .ok v else unbindable
  | _, .null => .ok .null
  | .boolean, .bool b => .ok (.bool b)
  | .numeric, .decimal d =>
    match d.toBinary64? with
    | some .nan => .ok .null
    | some x => .ok (.decimal (Decimal.fixed 10 x))
    | none => unbindable
  | .date, .date d => .ok (.date d)
  | .date, .dateTime d => .ok (.date d.date)
  | .dateTime, .dateTime d => .ok (.dateTime { d with time := d.time.naive })
  | .time, .time t => .ok (.time t.naive)
  | .interval, .duration d =>
    if minIntervalMicros ≤ d.micros ∧ d.micros < maxIntervalMicros then .ok (.duration d)
    else unbindable
  | .uuid, .uuid u => .ok (.uuid u)
  | .boolean, _ | .numeric, _ | .date, _ | .dateTime, _ | .time, _ | .interval, _ | .uuid, _ =>
    unbindable
  | _, v => storeAnything v

/-- A column of a table. The default is what a new row gets that is given nothing; the
store has a default of its own for rows that have not even that. -/
structure Column where
  name : String
  type : ColumnType
  isKey : Bool := false
  isNullable : Bool := true
  isUnique : Bool := false
  default : Option Value := none
  storeDefault : Option Value := none
  refersTo : Option (String × String) := none
  permissions : String := "rw"
  deriving Inhabited

/-- The cells of a row by the names of the columns. -/
abbrev Row := List (String × Value)

namespace Row

/-- The cell of a column; nothing where there is none. -/
def get (r : Row) (column : String) : Value :=
  (Fields.get? column r).getD .null

/-- Write a cell. -/
def set (r : Row) (column : String) (v : Value) : Row :=
  r.map fun c => if c.1 == column then (column, v) else c

/-- Write cells. -/
def setAll (r cells : Row) : Row := cells.foldl (fun r c => set r c.1 c.2) r

/-- Have the rows the same cells, none of them empty, in some columns? -/
def agree (columns : List String) (r s : Row) : Bool :=
  columns.all fun c => !(get r c).isNull && get r c == get s c

end Row

/-- A table. -/
structure Table where
  name : String
  columns : List Column
  rows : List Row
  deriving Inhabited

namespace Table

/-- The names of the columns of the key. -/
def keyColumns (t : Table) : List String := (t.columns.filter Column.isKey).map Column.name

/-- The column that the store numbers: an integer that is the whole key and refers to
nothing. -/
def numbered? (t : Table) : Option String :=
  match t.columns.filter Column.isKey with
  | [c] => if c.type = .integer && c.refersTo.isNone then some c.name else none
  | _ => none

/-- The key of a row. -/
def keyOf (t : Table) (r : Row) : List Value := t.keyColumns.map (Row.get r)

/-- The row of a key. -/
def find? (t : Table) (key : List Value) : Option Row := t.rows.find? fun r => t.keyOf r == key

/-- The number that a new row gets. -/
def nextNumber (t : Table) (column : String) : Int :=
  t.rows.foldl (fun n r =>
    match Row.get r column with
    | .int k => max n (k + 1)
    | _ => n) 1

/-- The sets of columns that have to be unique. -/
def uniqueColumns (t : Table) : List (List String) :=
  t.keyColumns :: (t.columns.filter Column.isUnique).map fun c => [c.name]

/-- The message of a constraint about some columns. -/
def constraintText (t : Table) (kind : String) (columns : List String) : String :=
  s!"{kind} constraint failed: " ++ ", ".intercalate (columns.map fun c => s!"{t.name}.{c}")

/-- Does a row of the table satisfy its constraints, beside these other rows? -/
def check (t : Table) (others : List Row) (r : Row) : Except Fault Unit :=
  let mayNotBeNull (c : Column) : Bool := !c.isNullable || c.isKey
  match t.columns.find? fun c => mayNotBeNull c && (Row.get r c.name).isNull with
  | some c => .error (.store (.constraint (t.constraintText "NOT NULL" [c.name])))
  | none =>
    match t.uniqueColumns.find? fun cs => others.any (Row.agree cs r) with
    | some cs => .error (.store (.constraint (t.constraintText "UNIQUE" cs)))
    | none => .ok ()

/-- Cells with the defaults of the columns that are not given. -/
def fill (t : Table) (cells : Row) : Row :=
  cells ++ t.columns.filterMap fun c =>
    if Fields.contains c.name cells then none else c.default.map fun v => (c.name, v)

/-- The stored forms of cells. -/
def storeCells (t : Table) (cells : Row) : Except Fault Row :=
  (t.columns.filter fun c => cells.any fun x => x.1 == c.name).mapM fun c => do
    let v ← c.type.store (Row.get cells c.name)
    pure (c.name, v)

/-- A whole row of some cells: the defaults of the store and a new number are filled in. -/
def complete (t : Table) (cells : Row) : Row :=
  t.columns.map fun c =>
    match cells.find? fun x => x.1 == c.name with
    | some (_, v) =>
      (c.name, if v.isNull && t.numbered? == some c.name then .int (t.nextNumber c.name) else v)
    | none =>
      (c.name,
        if t.numbered? == some c.name then .int (t.nextNumber c.name)
        else c.storeDefault.getD .null)

/-- Has a row a number in the range of the store? When the numbers are used up the store is
full. -/
def checkNumber (t : Table) (r : Row) : Except Fault Unit :=
  match t.numbered?.map (Row.get r) with
  | some (.int n) =>
    if n < storeIntegerBound then .ok () else .error (.failed "database or disk is full")
  | _ => .ok ()

/-- Insert a row of some cells. The row is given back as it is stored. -/
def insert (t : Table) (cells : Row) : Except Fault (Table × Row) := do
  let cells ← t.storeCells cells
  let row := t.complete cells
  t.checkNumber row
  t.check t.rows row
  pure ({ t with rows := t.rows ++ [row] }, row)

/-- Write cells of the row of a key. -/
def update (t : Table) (key : List Value) (cells : Row) : Except Fault Table := do
  let cells ← t.storeCells cells
  match t.find? key with
  | none => .error (.store .staleRow)
  | some old =>
    let row := Row.setAll old cells
    t.check (t.rows.filter fun r => t.keyOf r != key) row
    pure { t with rows := t.rows.map fun r => if t.keyOf r == key then row else r }

/-- Delete the row of a key. -/
def delete (t : Table) (key : List Value) : Table :=
  { t with rows := t.rows.filter fun r => t.keyOf r != key }

end Table

/-- The tables of a store. -/
abbrev Database := List Table

namespace Database

/-- The table of a name. -/
def table (db : Database) (name : String) : Except Fault Table :=
  match db.find? fun t => t.name == name with
  | some t => .ok t
  | none => .error (.store (.noTable name))

/-- Put a table in the place of that of its name. -/
def replace (db : Database) (t : Table) : Database :=
  db.map fun old => if old.name == t.name then t else old

/-- Remove a table. -/
def drop (db : Database) (name : String) : Database := db.filter fun t => t.name != name

/-- Insert a row into a table. -/
def insert (db : Database) (name : String) (cells : Row) : Except Fault (Database × Row) := do
  let t ← db.table name
  let (t, row) ← t.insert cells
  pure (db.replace t, row)

/-- Insert a row into a table, with the defaults of the columns that are not given. -/
def insertFilled (db : Database) (name : String) (cells : Row) :
    Except Fault (Database × Row) := do
  let t ← db.table name
  db.insert name (t.fill cells)

/-- Write cells of a row of a table. -/
def update (db : Database) (name : String) (key : List Value) (cells : Row) :
    Except Fault Database := do
  let t ← db.table name
  let t ← t.update key cells
  pure (db.replace t)

/-- Delete a row of a table. -/
def delete (db : Database) (name : String) (key : List Value) : Except Fault Database := do
  let t ← db.table name
  pure (db.replace (t.delete key))

end Database

end Hypermedia
