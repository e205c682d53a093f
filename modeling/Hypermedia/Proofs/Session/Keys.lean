import Hypermedia.Proofs.Format.Parsing
import Hypermedia.Proofs.Number.Spelled
import Hypermedia.Proofs.Session.Act
import Hypermedia.Session.Store
import Mathlib.Data.List.Forall2

/-!
# Ids and keys

The id of a record is the key of its row: the text of its only value, or those of its values with
underscores between them. Only the last value may have underscores itself, as an id is split at the
first ones. So an id means the key that it was made of exactly if no other value has an underscore
and no whole number is too long to be read (`Act.keyOf?_identity`), and then no other such key has
this id. Two keys of two texts may have one id (`Act.identity_ambiguous`).
-/

namespace Hypermedia

/-! ## Keys -/

/-- The column holds texts or whole numbers, and the value is one. -/
inductive ColumnType.Names : ColumnType → Value → Prop
  | integer (n : Int) : Names .integer (.int n)
  | string (s : String) : Names .string (.text s)
  | text (s : String) : Names .text (.text s)

/-- A key of texts and whole numbers for the columns of the key, of which there is at least one. -/
structure Model.IsKey (m : Model) (key : List Value) : Prop where
  ne_nil : key ≠ []
  names : List.Forall₂ (fun x v => x.type.Names v) m.keyColumns key

/-- Only the last value has underscores, and no whole number has too many digits to be read. -/
structure IsUnmixed (key : List Value) : Prop where
  apart : ∀ v ∈ key.dropLast, '_' ∉ v.display.toList
  short : ∀ n, .int n ∈ key → (Nat.toDigits 10 n.natAbs).length ≤ Reading.maxDigits

theorem forall₂_dropLast {α β : Type} {R : α → β → Prop} {xs : List α} {ys : List β}
    (h : List.Forall₂ R xs ys) : List.Forall₂ R xs.dropLast ys.dropLast := by
  rw [List.dropLast_eq_take, List.dropLast_eq_take, h.length_eq]
  exact List.forall₂_take _ h

namespace Act

variable {c : Catalog}

/-! ## Splitting ids -/

section

variable {α : Type} [BEq α] {sep : α}

theorem keyTexts_zero (s : List α) : keyTexts sep 0 s = [s] := by
  cases s <;> rfl

theorem keyTexts_ne_nil (n : Nat) (s : List α) : keyTexts sep n s ≠ [] := by
  unfold keyTexts
  split
  · exact List.cons_ne_nil _ _
  · exact List.cons_ne_nil _ _
  · split
    · exact List.cons_ne_nil _ _
    · split <;> exact List.cons_ne_nil _ _

variable [LawfulBEq α]

theorem keyTexts_separator (n : Nat) (s : List α) :
    keyTexts sep (n + 1) (sep :: s) = [] :: keyTexts sep n s := by
  rw [keyTexts, if_pos BEq.rfl]

theorem keyTexts_cons {n : Nat} {x : α} (hx : x ≠ sep) {s w : List α} {ws : List (List α)}
    (h : keyTexts sep (n + 1) s = w :: ws) : keyTexts sep (n + 1) (x :: s) = (x :: w) :: ws := by
  rw [keyTexts, if_neg (by simpa using hx), h]

/-- No part but the last one has a separator. -/
theorem separator_notMem_keyTexts (n : Nat) (s : List α) :
    ∀ w ∈ (keyTexts sep n s).dropLast, sep ∉ w := by
  induction s generalizing n with
  | nil => simp [keyTexts]
  | cons x s ih =>
    cases n with
    | zero => simp [keyTexts]
    | succ n =>
      by_cases hx : x = sep
      · rw [hx, keyTexts_separator, List.dropLast_cons_of_ne_nil (keyTexts_ne_nil n s)]
        exact List.forall_mem_cons.2 ⟨List.not_mem_nil, ih n⟩
      · obtain ⟨w, ws, hparts⟩ := List.exists_cons_of_ne_nil (keyTexts_ne_nil (n + 1) s)
        have hih := ih (n + 1)
        rw [hparts] at hih
        rw [keyTexts_cons hx hparts]
        rcases ws with - | ⟨v, ws⟩
        · simp
        · rw [List.dropLast_cons_of_ne_nil (List.cons_ne_nil _ _)] at hih ⊢
          obtain ⟨hw, hrest⟩ := List.forall_mem_cons.1 hih
          refine List.forall_mem_cons.2 ⟨fun hmem => ?_, hrest⟩
          exact (List.mem_cons.1 hmem).elim (fun h => hx h.symm) hw

theorem keyTexts_append {w : List α} (hw : sep ∉ w) (n : Nat) (s : List α) :
    keyTexts sep (n + 1) (w ++ sep :: s) = w :: keyTexts sep n s := by
  induction w with
  | nil => exact keyTexts_separator n s
  | cons x w ih =>
    obtain ⟨hx, hw⟩ := not_or.1 (List.mem_cons.not.1 hw)
    exact keyTexts_cons (Ne.symm hx) (ih hw)

/-- Parts are split again where they were joined, if only the last one has separators. -/
theorem keyTexts_intercalate {ws : List (List α)} (hne : ws ≠ [])
    (h : ∀ w ∈ ws.dropLast, sep ∉ w) :
    keyTexts sep (ws.length - 1) ([sep].intercalate ws) = ws := by
  induction ws with
  | nil => exact absurd rfl hne
  | cons w ws ih =>
    rcases ws with - | ⟨v, ws⟩
    · rw [List.intercalate_singleton]
      exact keyTexts_zero w
    · rw [List.dropLast_cons_of_ne_nil (List.cons_ne_nil _ _)] at h
      obtain ⟨hw, hrest⟩ := List.forall_mem_cons.1 h
      have hjoined : [sep].intercalate (w :: v :: ws) =
          w ++ sep :: [sep].intercalate (v :: ws) := by
        simp [List.intercalate_cons_cons]
      rw [hjoined, List.length_cons, Nat.add_sub_cancel, List.length_cons, keyTexts_append hw]
      exact congrArg (w :: ·) (ih (List.cons_ne_nil _ _) hrest)

end

/-! ## Reading the parts -/

/-- The values that texts mean for columns. -/
theorem keyValues_eq_ok {ps : List (Column × Value)} {key : List Value} :
    keyValues c ps = .ok (some key) ↔
      List.Forall₂ (fun p v => p.1.type.parse c.hasRoom p.1.name p.2 = .ok v) ps key := by
  induction ps generalizing key with
  | nil => simp [keyValues, eq_comm]
  | cons p ps ih =>
    rw [keyValues, List.forall₂_cons_left_iff]
    simp only [← ih]
    cases hparse : p.1.type.parse c.hasRoom p.1.name p.2 with
    | error f => cases f <;> simp
    | ok v =>
      rcases hrest : keyValues c ps with f | - | vs <;> simp [Except.map, eq_comm]

theorem keyParts_text (columns : Nat) (s : String) : keyParts columns (.text s) =
    (keyTexts '_' (columns - 1) s.toList).map fun w => .text (String.ofList w) := by
  unfold keyParts
  split
  · next hone =>
    rw [Nat.sub_eq_zero_of_le hone, keyTexts_zero, List.map_singleton, String.ofList_toList]
  · rfl

end Act

namespace ColumnType.Names

variable {type : ColumnType} {hasRoom : Nat → Bool} {v : Value} {name : String}

theorem parse_integer_iff {s : String} {n : Int} :
    ColumnType.integer.parse hasRoom name (.text s) = .ok (.int n) ↔
      Conversion.toInt (.text s) = .ok n := by
  rw [parse_eq_ok_iff rfl rfl, convert]
  cases Conversion.toInt (.text s) <;> simp [Except.map]

/-- The text of a value is read as the value, if it has not too many digits. -/
theorem parse_display_iff (h : type.Names v) :
    type.parse hasRoom name (.text v.display) = .ok v ↔
      ∀ n, v = .int n → (Nat.toDigits 10 n.natAbs).length ≤ Reading.maxDigits := by
  cases h with
  | integer n =>
    rw [show (Value.int n).display = toString n from rfl, parse_integer_iff,
      Conversion.toInt_toString_iff]
    exact ⟨fun h m hm => Value.int.inj hm ▸ h, fun h => h n rfl⟩
  | string s => simp [parse, holds, Value.display]
  | text s => simp [parse, holds, Value.display]

theorem separator_notMem_toString (n : Int) : '_' ∉ (toString n).toList := by
  rw [toList_toString_int]
  intro hmem
  rcases List.mem_append.1 hmem with hsign | hdigit
  · cases hneg : decide (n < 0) <;> simp [hneg, Reading.minus] at hsign
  · exact absurd (Nat.isDigit_of_mem_toDigits (by decide) (by decide) hdigit) (by decide)

/-- A text that is read as a value has the underscores of the value. -/
theorem separator_mem (h : type.Names v) {w : List Char}
    (hparse : type.parse hasRoom name (.text (String.ofList w)) = .ok v)
    (hv : '_' ∈ v.display.toList) : '_' ∈ w := by
  cases h with
  | integer n => exact absurd hv (separator_notMem_toString n)
  | string s | text s =>
    obtain rfl : String.ofList w = s := by simpa [parse, holds] using hparse
    simpa [Value.display] using hv

theorem not_same_null (h : type.Names v) : (v == .null) = false := by
  cases h <;> rfl

end ColumnType.Names

/-! ## The id of a key -/

/-- The id of a record whose row has this key. -/
def keyId : List Value → Value
  | [] => .null
  | [v] => v
  | vs => .text ("_".intercalate (vs.map Value.display))

theorem toList_display_keyId {key : List Value} (hne : key ≠ []) : (keyId key).display.toList =
    ['_'].intercalate (key.map fun v => v.display.toList) := by
  match key with
  | [v] => simp [keyId]
  | v :: w :: key =>
    rw [show keyId (v :: w :: key) = .text _ from rfl, Value.display, String.toList_intercalate,
      List.map_map]
    rfl

namespace Model.IsKey

variable {c : Catalog} {m : Model} {key : List Value}

theorem length_eq (h : m.IsKey key) : m.keyColumns.length = key.length := h.names.length_eq

theorem ne_null (h : m.IsKey key) : (key == [.null]) = false := by
  have hnames := h.names
  have hne := h.ne_nil
  generalize m.keyColumns = columns at hnames
  cases hnames with
  | nil => exact absurd rfl hne
  | cons hv _ =>
    rw [List.cons_beq_cons, hv.not_same_null]
    rfl

/-- An id means a key exactly if there are as many parts as columns, and they are read as the
values. -/
theorem keyOf?_eq_ok_iff (h : m.IsKey key) {id : Value} :
    Act.keyOf? c m id = .ok (some key) ↔
      (Act.keyParts m.keyColumns.length id).length = m.keyColumns.length ∧
      List.Forall₂ (fun p v => p.1.type.parse c.hasRoom p.1.name p.2 = .ok v)
        (m.keyColumns.zip (Act.keyParts m.keyColumns.length id)) key := by
  simp only [Act.keyOf?]
  rw [← Act.keyValues_eq_ok]
  split
  · next hlength =>
    rw [and_iff_right hlength]
    rcases Act.keyValues c _ with f | - | vs
    · simp [Except.map]
    · simp [Except.map]
    · simp only [Except.map, Option.bind_some, Except.ok.injEq, Option.some.injEq]
      constructor
      · intro heq
        split at heq
        · cases heq
        · exact Option.some.inj heq
      · rintro rfl
        rw [h.ne_null]
        rfl
  · next hlength => simp [hlength]

/-- The texts of the values are read as the values, if no whole number has too many digits. -/
theorem parse_displays_iff (h : m.IsKey key) :
    List.Forall₂ (fun p v => p.1.type.parse c.hasRoom p.1.name p.2 = .ok v)
        (m.keyColumns.zip (key.map fun v => .text v.display)) key ↔
      ∀ n, .int n ∈ key → (Nat.toDigits 10 n.natAbs).length ≤ Reading.maxDigits := by
  have hnames := h.names
  generalize m.keyColumns = columns at hnames ⊢
  clear h
  induction hnames with
  | nil => simp
  | cons hv _ ih =>
    rw [List.map_cons, List.zip_cons_cons, List.forall₂_cons]
    refine (and_congr hv.parse_display_iff ih).trans ?_
    simp only [List.mem_cons, or_imp, forall_and, eq_comm]

/-- Where parts are read as the values, each value has the underscores of its part. -/
theorem separator_mem (h : m.IsKey key) {ws : List (List Char)}
    (hlength : ws.length = m.keyColumns.length)
    (hparse : List.Forall₂ (fun p v => p.1.type.parse c.hasRoom p.1.name p.2 = .ok v)
      (m.keyColumns.zip (ws.map fun w => .text (String.ofList w))) key) :
    List.Forall₂ (fun w v => '_' ∈ v.display.toList → '_' ∈ w) ws key := by
  have hnames := h.names
  generalize m.keyColumns = columns at hnames hparse hlength
  clear h
  induction hnames generalizing ws with
  | nil =>
    obtain rfl := List.eq_nil_of_length_eq_zero hlength
    exact .nil
  | cons hv _ ih =>
    cases ws with
    | nil => cases hlength
    | cons w ws =>
      rw [List.map_cons, List.zip_cons_cons, List.forall₂_cons] at hparse
      exact .cons (hv.separator_mem hparse.1) (ih hparse.2 (Nat.succ.inj hlength))

/-- A key is read from its id exactly if it is unmixed. -/
theorem keyOf?_keyId_iff (h : m.IsKey key) :
    Act.keyOf? c m (.text (keyId key).display) = .ok (some key) ↔ IsUnmixed key := by
  have hchars := toList_display_keyId h.ne_nil
  have hsplit : (∀ v ∈ key.dropLast, '_' ∉ v.display.toList) →
      Act.keyParts m.keyColumns.length (.text (keyId key).display) =
        key.map fun v => .text v.display := by
    intro hapart
    have hne : (key.map fun v => v.display.toList) ≠ [] := by simpa using h.ne_nil
    have htexts := Act.keyTexts_intercalate hne (by
      rw [← List.map_dropLast]
      exact List.forall_mem_map.2 hapart)
    rw [Act.keyParts_text, hchars, h.length_eq, ← List.length_map, htexts, List.map_map]
    simp [Function.comp_def]
  rw [h.keyOf?_eq_ok_iff]
  constructor
  · rintro ⟨hlength, hparse⟩
    have hapart : ∀ v ∈ key.dropLast, '_' ∉ v.display.toList := by
      rw [Act.keyParts_text] at hlength hparse
      rw [List.length_map] at hlength
      intro v hv hsep
      obtain ⟨w, hw, hwsep⟩ := exists_of_forall₂_right
        (forall₂_dropLast (h.separator_mem hlength hparse)) hv
      exact Act.separator_notMem_keyTexts _ _ w hw (hwsep hsep)
    rw [hsplit hapart] at hparse
    exact ⟨hapart, h.parse_displays_iff.1 hparse⟩
  · rintro ⟨hapart, hshort⟩
    rw [hsplit hapart]
    exact ⟨by rw [List.length_map, h.length_eq], h.parse_displays_iff.2 hshort⟩

end Model.IsKey

namespace Act

theorem exec_identity {s : Session} {r : Ref} {e : Entry} (hr : s.known? r = some e) :
    (identity r).exec s = (.ok (keyId e.key), s) := by
  have hentry : (entry r).exec s = (.ok e, s) := by
    have hget : (get : Act Session).exec s = (.ok s, s) := rfl
    rw [entry, exec_bind, hget]
    dsimp only
    rw [hr]
    rfl
  rw [identity, exec_bind, hentry]
  dsimp only
  rcases e.key with - | ⟨v, - | ⟨w, key⟩⟩ <;> rfl

/-- A record whose key is texts and whole numbers has an id, and the key is read from the text of
the id exactly if it is unmixed. Records with unmixed keys have the same key if their ids have the
same text. -/
theorem keyOf?_identity {c : Catalog} {m : Model} {s : Session} {r : Ref} {e : Entry}
    (hr : s.known? r = some e) (hkey : m.IsKey e.key) : ∃ id, (identity r).exec s = (.ok id, s) ∧
      (keyOf? c m (.text id.display) = .ok (some e.key) ↔ IsUnmixed e.key) ∧
      ∀ r' e' id', s.known? r' = some e' → m.IsKey e'.key → IsUnmixed e.key → IsUnmixed e'.key →
        (identity r').exec s = (.ok id', s) → id'.display = id.display → e'.key = e.key := by
  refine ⟨_, exec_identity hr, hkey.keyOf?_keyId_iff, fun r' e' id' hr' hkey' he he' hid' heq => ?_⟩
  obtain rfl : keyId e'.key = id' := by
    rw [exec_identity hr'] at hid'
    exact Except.ok.inj (congrArg Prod.fst hid')
  have hread : keyOf? c m _ = _ := hkey'.keyOf?_keyId_iff.2 he'
  rw [heq, hkey.keyOf?_keyId_iff.2 he] at hread
  exact (Option.some.inj (Except.ok.inj hread)).symm

/-- Boards of shelves in rooms, with a whole number and two texts as the key. -/
def boardModel : Model where
  name := "Board"
  recordClass := { name := "Board", lineage := [0] }
  lineage := ["Board"]
  tables := ["boards"]
  columns := [⟨"boards", { name := "floor", type := .integer, isKey := true }⟩,
    ⟨"boards", { name := "room", type := .string, isKey := true }⟩,
    ⟨"boards", { name := "label", type := .text, isKey := true }⟩]
  discriminator := none
  identity := none
  isSingle := false
  links := []

/-- A session that knows the boards of two keys. -/
def boardSession (first second : List Value) : Session :=
  (((Session.start default).receive boardModel (.stored false) first).1.receive boardModel
    (.stored false) second).1

/-- The board with the label `y_z` in the room `x` on the floor below the ground. -/
theorem keyOf?_identity_board : boardModel.IsKey [.int (-1), .text "x", .text "y_z"] ∧
    IsUnmixed [.int (-1), .text "x", .text "y_z"] ∧
    ∃ id, (identity ⟨0, "Board"⟩).exec (boardSession [.int (-1), .text "x", .text "y_z"] []) =
        (.ok id, boardSession [.int (-1), .text "x", .text "y_z"] []) ∧
      keyOf? default boardModel (.text id.display) =
        .ok (some [.int (-1), .text "x", .text "y_z"]) := by
  have hkey : boardModel.IsKey [.int (-1), .text "x", .text "y_z"] :=
    ⟨by simp, .cons (.integer _) (.cons (.string _) (.cons (.text _) .nil))⟩
  have hunmixed : IsUnmixed [.int (-1), .text "x", .text "y_z"] := by
    refine ⟨?_, fun n hn => ?_⟩
    · intro v hv
      simp only [List.dropLast, List.mem_cons, List.not_mem_nil, or_false] at hv
      rcases hv with rfl | rfl <;> decide
    · obtain rfl : n = -1 := by simpa using hn
      decide
  obtain ⟨id, hid, hread, -⟩ := keyOf?_identity (c := default) (m := boardModel)
    (s := boardSession [.int (-1), .text "x", .text "y_z"] []) (r := ⟨0, "Board"⟩) rfl hkey
  exact ⟨hkey, hunmixed, id, hid, hread.2 hunmixed⟩

/-- The label `z` in the room `x_y` and the label `y_z` in the room `x` have one id, which is read
as the second one. -/
theorem identity_ambiguous :
    let s := boardSession [.int 0, .text "x_y", .text "z"] [.int 0, .text "x", .text "y_z"]
    (identity ⟨0, "Board"⟩).exec s = (.ok (.text "0_x_y_z"), s) ∧
      (identity ⟨1, "Board"⟩).exec s = (.ok (.text "0_x_y_z"), s) ∧
      keyOf? default boardModel (.text "0_x_y_z") = .ok (some [.int 0, .text "x", .text "y_z"]) ∧
      [Value.int 0, .text "x", .text "y_z"] ≠ [.int 0, .text "x_y", .text "z"] := by
  refine ⟨?_, ?_, ?_, by simp⟩
  · rw [exec_identity rfl]; rfl
  · rw [exec_identity rfl]; rfl
  · rfl

end Act

end Hypermedia
