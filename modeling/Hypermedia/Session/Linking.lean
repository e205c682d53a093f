import Hypermedia.Session.Reading

/-!
# Linking records

A link and its inverse say the same, so giving something to one side changes the other. A
record that is given to a link of a record which will be stored is stored with it. Nothing
is read for the sake of the other side: what is not known of it is remembered as added or
removed.

`Act.setOne` and `Act.setMany` give a link all that it leads to, `Act.addTo` adds a record
to a list.
-/

namespace Hypermedia.Act

variable (c : Catalog)

/-- The link that leads back from the target of a link. -/
def inverseOf (l : Link) : Option Link := do
  let target ← c.model? l.target
  let name ← l.inverse
  target.link? name

/-! ## Which records are stored together -/

/-- The records that are involved in a link. -/
def involved (r : Ref) (l : Link) : Act (List Ref) := do
  let e ← entry r
  pure (e.linkState l.name).involved

/-- Is a record stored, or to be stored? -/
def isMember (r : Ref) : Act Bool := do
  let e ← entry r
  pure e.isMember

/-- Let a record be stored for the first time. -/
def enroll (r : Ref) : Act Unit :=
  modify fun s =>
    let order := (s.entries.filter Entry.isPending).length
    s.modify r fun e => if e.phase = .fresh then { e with phase := .pending order } else e

/-- Let the records be stored to which the links of a record lead, from the first link to
the last, each together with those to which its own links lead. The records that were seen
are given back; `fuel` bounds how far the links are followed. -/
def spread : (fuel : Nat) → List Ref → Ref → Act (List Ref)
  | 0, seen, _ => pure seen
  | fuel + 1, seen, r => do
    let e ← entry r
    e.model.links.foldlM (fun seen l => do
      let rs ← involved r l
      let rs ← rs.eraseDups.filterM fun x => do
        let known ← isMember x
        pure (!known && !seen.contains x)
      rs.foldlM (fun seen x => do
        enroll x
        spread fuel seen x) (seen ++ rs)) seen

/-- Let a record be stored, and all records to which its links lead. -/
def add (r : Ref) : Act Unit := do
  let e ← entry r
  if e.phase = .gone then throw (.store .notStored)
  else do
    enroll r
    let n := (← get).entries.length
    let _ ← spread (n + 1) [r] r

/-- What is given to a link of a record that will be stored is stored too. -/
def cascade (owner r : Ref) : Act Unit := do
  let owned ← isMember owner
  let known ← isMember r
  if owned && !known then add r else pure ()

/-! ## One side of a link -/

/-- Remember that a record was put into, or taken out of, a link of another. -/
def markKept (l : Link) (r : Ref) : Act Unit :=
  modifyEntry r fun e => { e with lost := e.lost.filter (· != l) }

/-- Remember that a record was taken out of a link of another. A record that was to be
stored only for its owner is not stored. -/
def markLost (l : Link) (r : Ref) : Act Unit :=
  modifyEntry r fun e =>
    { e with
      lost := l :: e.lost.filter (· != l)
      phase := if l.owns && e.isPending then .fresh else e.phase }

/-- Add a record to a list without regard to the other side. -/
def push (owner : Ref) (l : Link) (r : Ref) : Act Unit := do
  modifyEntry owner fun e => e.setLink l.name
    (match e.linkState l.name with
    | .read before now => .read before (now ++ [r])
    | .unread added removed =>
      if removed.contains r then .unread added (removed.erase r)
      else .unread (added ++ [r]) removed)
  markKept l r

/-- Take a record out of a list without regard to the other side. -/
def pull (owner : Ref) (l : Link) (r : Ref) : Act Unit := do
  modifyEntry owner fun e => e.setLink l.name
    (match e.linkState l.name with
    | .read before now => .read before (now.erase r)
    | .unread added removed =>
      if added.contains r then .unread (added.erase r) removed
      else .unread added (if removed.contains r then removed else removed ++ [r]))
  markLost l r

/-- The record that a link to one leads to, as far as it is known without reading. -/
def peek (r : Ref) (l : Link) : Act (Option (List Ref)) := do
  let e ← entry r
  match e.linkState l.name with
  | .read _ now => pure (some now)
  | .unread _ _ =>
    match l.kind with
    | .reference column =>
      match e.model.column? column, c.model? l.target with
      | some x, some target => do
        let v ← columnValue r x
        if v.isNull then pure (some [])
        else do
          let s ← get
          pure ((s.identified? target.rootTable [v]).map fun e => [e.ref])
      | _, _ => pure none
    | _ => do
      let state ← readLink c r l
      pure (some state.current)

/-- Let a link to one lead to a record or to nothing, without regard to the other side. The
record before, as far as it is known, is given back. -/
def putOne (r : Ref) (l : Link) (new : Option Ref) : Act (Option (List Ref)) := do
  let old ← peek c r l
  modifyEntry r fun e => e.setLink l.name
    (match e.linkState l.name with
    | .read before _ => .read before new.toList
    | .unread _ _ => .read old new.toList)
  pure old

/-! ## The other side of a link -/

/-- Take a record out of the other side of a link to one. -/
def release (other : Ref) (back : Link) (r : Ref) : Act Unit := do
  if back.isList then pull other back r
  else do
    let now ← peek c other back
    match now with
    | some [x] => if x == r then let _ ← putOne c other back none else pure ()
    | some _ => pure ()
    | none => let _ ← putOne c other back none

/-- Let the other side of a link to one lead to a record, and take it from where it was. -/
def claim (r : Ref) (l : Link) (owner : Ref) : Act Unit := do
  let old ← putOne c r l (some owner)
  match old, inverseOf c l with
  | some [x], some back => if x == owner then pure () else release c x back r
  | _, _ => pure ()

/-- What follows on the other side from a record being put into a link. -/
def echoGain (owner : Ref) (l : Link) (r : Ref) : Act Unit :=
  match inverseOf c l with
  | none => pure ()
  | some back => if back.isList then push r back owner else claim c r back owner

/-- What follows on the other side from a record being taken out of a link. A record that
is known to be elsewhere stays there. -/
def echoLoss (owner : Ref) (l : Link) (r : Ref) : Act Unit :=
  match inverseOf c l with
  | none => pure ()
  | some back => release c r back owner

/-- What follows from a record being put into a link. -/
def keep (owner : Ref) (l : Link) (r : Ref) : Act Unit := do
  markKept l r
  echoGain c owner l r

/-- What follows from a record being taken out of a link. -/
def lose (owner : Ref) (l : Link) (r : Ref) : Act Unit := do
  markLost l r
  echoLoss c owner l r

/-! ## Giving something to a link -/

/-- Let a link to one lead to a record or to nothing. -/
def setOne (r : Ref) (l : Link) (new : Option Ref) : Act Unit := do
  let old ← putOne c r l new
  if old == some new.toList then pure ()
  else do
    new.forM (cascade r)
    (old.getD []).forM (lose c r l)
    new.forM (keep c r l)

/-- Add a record to a list of a record. -/
def gain (owner : Ref) (l : Link) (r : Ref) : Act Unit := do
  cascade owner r
  keep c owner l r

/-- Add a record to a list. -/
def addTo (owner : Ref) (l : Link) (r : Ref) : Act Unit := do
  let _ ← readLink c owner l
  modifyEntry owner fun e => e.setLink l.name
    (match e.linkState l.name with
    | .read before now => .read before (now ++ [r])
    | s => s)
  gain c owner l r

/-- Let a list lead to exactly these records. -/
def setMany (owner : Ref) (l : Link) (rs : List Ref) : Act Unit := do
  let state ← readLink c owner l
  let old := state.current
  let before :=
    match state with
    | .read before _ => before
    | .unread _ _ => some old
  modifyEntry owner fun e => e.setLink l.name (.read before rs)
  (rs.filter fun r => !old.contains r).forM (gain c owner l)
  (old.eraseDups.filter fun r => !rs.contains r).forM (lose c owner l)

end Hypermedia.Act
