/-!
# Named fields in order

A list of named things is read by name; binding a name that is there keeps its place.
-/

namespace Hypermedia.Fields

variable {α : Type}

/-- What is bound to a name. -/
def get? (name : String) (fields : List (String × α)) : Option α :=
  (fields.find? fun f => f.1 == name).map (·.2)

/-- Bind a name. -/
def put (name : String) (x : α) : List (String × α) → List (String × α)
  | [] => [(name, x)]
  | (k, y) :: r => if k == name then (k, x) :: r else (k, y) :: put name x r

/-- Bind names one after the other. -/
def putAll (fields new : List (String × α)) : List (String × α) :=
  new.foldl (fun fs f => put f.1 f.2 fs) fields

/-- Is there anything of the name? -/
def contains (name : String) (fields : List (String × α)) : Bool := (get? name fields).isSome

end Hypermedia.Fields
