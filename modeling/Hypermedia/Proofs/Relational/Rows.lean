import Hypermedia.Proofs.Fields
import Hypermedia.Proofs.Outcome
import Hypermedia.Relational.Table
import Mathlib.Data.List.Nodup

/-!
# Rows and tables

What writing cells, inserting rows and putting a table in the place of another change, and
what they leave as it is. Integers are equal as values exactly if they are equal, so a key
that is an integer is found by it.
-/

namespace Hypermedia

/-! ## Equality of values -/

theorem Decimal.sameMagnitude_zero (c d : Nat) : sameMagnitude c 0 d 0 = (c == d) := by
  unfold sameMagnitude
  by_cases h : c = 0 ∨ d = 0
  · simp [h]
  · by_cases hcd : c = d
    · simp [hcd]
    · simp [h, hcd]

theorem Decimal.numEq_ofInt (a b : Int) : (Decimal.ofInt a).numEq (.ofInt b) = decide (a = b) := by
  simp only [ofInt, numEq, sameMagnitude_zero]
  rw [Bool.eq_iff_iff]
  simp only [Bool.or_eq_true, Bool.and_eq_true, beq_iff_eq, decide_eq_true_eq,
    decide_eq_decide]
  omega

namespace Value

@[simp] theorem int_beq (a b : Int) : (Value.int a == Value.int b) = decide (a = b) :=
  Decimal.numEq_ofInt a b

@[simp] theorem text_beq (a b : String) : (Value.text a == Value.text b) = (a == b) := rfl

theorem text_beq_eq {a : String} {v : Value} (h : (Value.text a == v) = true) : v = .text a := by
  cases v with
  | text b =>
    rw [text_beq, beq_iff_eq] at h
    rw [h]
  | _ => cases h

@[simp] theorem torn_beq (a b : TornText) : (Value.torn a == Value.torn b) = (a == b) := rfl

theorem torn_beq_eq {a : TornText} {v : Value} (h : (Value.torn a == v) = true) : v = .torn a := by
  cases v with
  | torn b =>
    rw [torn_beq, beq_iff_eq] at h
    rw [h]
  | _ => cases h

theorem null_beq_eq {v : Value} (h : (Value.null == v) = true) : v = .null := by
  cases v with
  | null => rfl
  | _ => cases h

/-- Identities that a cell equals are the same. -/
theorem identity_eq {i j : Option String} {v : Value} (hi : (i.map Value.text == some v) = true)
    (hj : (j.map Value.text == some v) = true) : i = j := by
  cases i with
  | none => cases hi
  | some a =>
    cases j with
    | none => cases hj
    | some b =>
      have h := (text_beq_eq hi).symm.trans (text_beq_eq hj)
      rw [Value.text.inj h]

@[simp] theorem null_beq_int (n : Int) : (Value.null == Value.int n) = false := rfl

@[simp] theorem null_beq_null : (Value.null == Value.null) = true := rfl

end Value

/-! ## Rows -/

namespace Row

theorem get_cons (n : String) (v : Value) (r : Row) (m : String) :
    get ((n, v) :: r) m = if n = m then v else get r m := by
  by_cases h : n = m <;> simp [get, Fields.get?, h]

theorem get_nil (m : String) : get [] m = .null := rfl

/-- The names of the columns of a row. -/
def names (r : Row) : List String := r.map Prod.fst

/-- The cell of a column of a row is in the row. -/
theorem get_mem {r : Row} {n : String} (h : n ∈ names r) : (n, get r n) ∈ r := by
  induction r with
  | nil => simp [names] at h
  | cons c r ih =>
    obtain ⟨k, w⟩ := c
    rw [get_cons]
    by_cases hk : k = n
    · subst hk
      rw [if_pos rfl]
      exact List.mem_cons_self
    · have hr : n ∈ names r := by simpa [names, Ne.symm hk] using h
      rw [if_neg hk]
      exact List.mem_cons_of_mem _ (ih hr)

@[simp] theorem names_set (r : Row) (n : String) (v : Value) : names (set r n v) = names r := by
  simp only [names, set, List.map_map]
  refine List.map_congr_left fun c _ => ?_
  by_cases h : c.1 = n <;> simp [h]

theorem get_set (r : Row) (n m : String) (v : Value) :
    get (set r n v) m = if m = n ∧ n ∈ names r then v else get r m := by
  induction r with
  | nil => simp [set, names, get_nil]
  | cons c r ih =>
    obtain ⟨k, w⟩ := c
    have hset : set ((k, w) :: r) n v = (if k == n then (n, v) else (k, w)) :: set r n v := rfl
    rw [hset]
    by_cases hk : k = n
    · subst hk
      by_cases hm : m = k
      · subst hm
        rw [if_pos (beq_self_eq_true _), get_cons, if_pos rfl, if_pos ⟨rfl, by simp [names]⟩]
      · have hm' : ¬k = m := fun h => hm h.symm
        rw [if_pos (beq_self_eq_true _), get_cons, get_cons, if_neg hm', if_neg hm', ih]
        simp [hm]
    · have hmem : n ∈ names ((k, w) :: r) ↔ n ∈ names r := by simp [names, Ne.symm hk]
      rw [if_neg (by simpa using hk), get_cons, get_cons, ih]
      simp only [hmem]
      by_cases hm : k = m
      · subst hm
        simp [hk]
      · simp [hm]

@[simp] theorem names_setAll (r cells : Row) : names (setAll r cells) = names r := by
  induction cells generalizing r with
  | nil => rfl
  | cons c cells ih =>
    have hset : setAll r (c :: cells) = setAll (set r c.1 c.2) cells := rfl
    rw [hset, ih, names_set]

/-- Cells that are not written stay. -/
theorem get_setAll_of_not_mem {r cells : Row} {m : String} (h : m ∉ names cells) :
    get (setAll r cells) m = get r m := by
  induction cells generalizing r with
  | nil => rfl
  | cons c cells ih =>
    have hset : setAll r (c :: cells) = setAll (set r c.1 c.2) cells := rfl
    simp only [names, List.map_cons, List.mem_cons, not_or] at h
    rw [hset, ih h.2, get_set, if_neg fun h' => h.1 h'.1]

/-- A cell that is written has the new value. -/
theorem get_setAll_of_mem {r cells : Row} (hn : (names cells).Nodup) {m : String}
    (hm : m ∈ names r) (h : m ∈ names cells) : get (setAll r cells) m = get cells m := by
  induction cells generalizing r with
  | nil => simp [names] at h
  | cons c cells ih =>
    obtain ⟨k, w⟩ := c
    have hset : setAll r ((k, w) :: cells) = setAll (set r k w) cells := rfl
    simp only [names, List.map_cons, List.nodup_cons, List.mem_cons] at hn h
    rw [hset]
    by_cases hk : k = m
    · subst hk
      rw [get_setAll_of_not_mem hn.1, get_set, get_cons]
      simp [hm]
    · rw [ih hn.2 (by simpa using hm) (h.resolve_left fun h => hk h.symm), get_cons, if_neg hk]

/-- The cells of a row that has one for each member of a list. -/
theorem get_map {α : Type} {name : α → String} {f : α → Value} {xs : List α} {x : α}
    (hn : (xs.map name).Nodup) (hx : x ∈ xs) :
    get (xs.map fun x => (name x, f x)) (name x) = f x := by
  induction xs with
  | nil => cases hx
  | cons y ys ih =>
    simp only [List.map_cons, List.nodup_cons] at hn
    rw [List.map_cons, get_cons]
    rcases List.mem_cons.1 hx with rfl | hx
    · simp
    · have hne : name y ≠ name x := fun h => hn.1 (h ▸ List.mem_map_of_mem hx)
      rw [if_neg hne, ih hn.2 hx]

/-- Rows with the same cells are the same. -/
theorem eq_of_get {r r' : Row} (hnames : names r = names r') (hn : (names r).Nodup)
    (h : ∀ n ∈ names r, get r n = get r' n) : r = r' := by
  induction r generalizing r' with
  | nil => exact (List.map_eq_nil_iff.1 hnames.symm).symm
  | cons x r ih =>
    obtain ⟨n, v⟩ := x
    obtain ⟨⟨n', v'⟩, rest, rfl, rfl, hrest⟩ := List.map_eq_cons_iff.1 hnames.symm
    simp only [names, List.map_cons, List.nodup_cons, List.mem_cons] at hn h
    have hv : v = v' := by simpa [get_cons] using h _ (Or.inl rfl)
    obtain rfl := ih hrest.symm hn.2 fun m hm => by
      have hne : n' ≠ m := fun heq => hn.1 (heq ▸ hm)
      simpa [get_cons, hne] using h m (Or.inr hm)
    rw [hv]

end Row

/-! ## Tables -/

namespace Table

/-- The names of the columns. -/
def names (t : Table) : List String := t.columns.map Column.name

/-- A cell of a new row. -/
def completed (t : Table) (cells : Row) (x : Column) : Value :=
  match cells.find? fun c => c.1 == x.name with
  | some (_, v) => if v.isNull && t.numbered? == some x.name then .int (t.nextNumber x.name) else v
  | none =>
    if t.numbered? == some x.name then .int (t.nextNumber x.name) else x.storeDefault.getD .null

theorem complete_eq (t : Table) (cells : Row) :
    t.complete cells = t.columns.map fun x => (x.name, t.completed cells x) := by
  refine List.map_congr_left fun x _ => ?_
  unfold completed
  cases cells.find? fun c => c.1 == x.name with
  | some f => rfl
  | none => rfl

theorem names_complete (t : Table) (cells : Row) : Row.names (t.complete cells) = t.names := by
  simp [complete_eq, Row.names, names, Function.comp_def]

theorem get_complete {t : Table} (hn : t.names.Nodup) (cells : Row) {x : Column}
    (hx : x ∈ t.columns) : Row.get (t.complete cells) x.name = t.completed cells x := by
  rw [complete_eq]
  exact Row.get_map hn hx

/-- The new number is greater than all numbers of the table. -/
theorem lt_nextNumber (t : Table) (column : String) :
    1 ≤ t.nextNumber column ∧
      ∀ r ∈ t.rows, ∀ k, Row.get r column = .int k → k < t.nextNumber column := by
  -- A step that never goes down and passes the number of its row.
  have hfold : ∀ (step : Int → Row → Int),
      (∀ n r, n ≤ step n r ∧ ∀ k, Row.get r column = .int k → k < step n r) →
      ∀ (rs : List Row) (n : Int), n ≤ rs.foldl step n ∧
        ∀ r ∈ rs, ∀ k, Row.get r column = .int k → k < rs.foldl step n := by
    intro step hstep rs
    induction rs with
    | nil => intro n; exact ⟨Int.le_refl _, by simp⟩
    | cons r rs ih =>
      intro n
      obtain ⟨hle, hlt⟩ := ih (step n r)
      refine ⟨Int.le_trans (hstep n r).1 hle, fun r' hr' k hk => ?_⟩
      rcases List.mem_cons.1 hr' with rfl | hr'
      · exact Int.lt_of_lt_of_le ((hstep n r').2 k hk) hle
      · exact hlt r' hr' k hk
  refine hfold _ (fun n r => ?_) t.rows 1
  split
  · next k hk =>
    refine ⟨by omega, fun j hj => ?_⟩
    rw [hk] at hj
    cases hj
    omega
  · next h => exact ⟨Int.le_refl _, fun k hk => absurd hk (h k)⟩

/-- A row that passes the check has something in every column that must not be empty. -/
theorem check_eq_ok {t : Table} {others : List Row} {r : Row} (h : t.check others r = .ok ())
    {x : Column} (hx : x ∈ t.columns) (hn : x.isNullable = false) : Row.get r x.name ≠ .null := by
  unfold check at h
  dsimp only at h
  cases hfind : t.columns.find? fun c =>
      (!c.isNullable || c.isKey) && (Row.get r c.name).isNull with
  | some c =>
    rw [hfind] at h
    cases h
  | none =>
    intro hnull
    have hx := List.find?_eq_none.1 hfind x hx
    simp [hn, hnull, Value.isNull] at hx

end Table

/-! ## Databases -/

namespace Database

variable {db : Database}

theorem table_mem {name : String} {t : Table} (h : db.table name = .ok t) :
    t ∈ db ∧ t.name = name := by
  unfold table at h
  split at h
  · next t' ht =>
    cases h
    exact ⟨List.mem_of_find?_eq_some ht, by simpa using List.find?_some ht⟩
  · cases h

/-- A table is found by its name. -/
theorem table_eq_ok (hn : (db.map Table.name).Nodup) {t : Table} (ht : t ∈ db) :
    db.table t.name = .ok t := by
  rw [table, (find?_key_eq_some hn).2 ⟨ht, rfl⟩]

theorem mem_replace {t u : Table} (h : u ∈ db.replace t) :
    u = t ∨ u ∈ db ∧ u.name ≠ t.name := by
  unfold replace at h
  obtain ⟨old, hold, heq⟩ := List.mem_map.1 h
  split at heq
  · exact Or.inl heq.symm
  · next hne =>
    subst heq
    exact Or.inr ⟨hold, by simpa using hne⟩

theorem map_replace {α : Type} (f : Table → α) (t : Table)
    (h : ∀ old ∈ db, old.name = t.name → f t = f old) : (db.replace t).map f = db.map f := by
  unfold replace
  rw [List.map_map]
  refine List.map_congr_left fun old hold => ?_
  by_cases hn : old.name = t.name
  · simp [hn, h old hold hn]
  · simp [hn]

/-- The table that was put in the place of another is found, and so is every other. -/
theorem table_replace {t old : Table} (hold : db.table t.name = .ok old) (name : String) :
    (db.replace t).table name = if name = t.name then .ok t else db.table name := by
  unfold table at hold ⊢
  unfold replace
  rw [List.find?_map]
  by_cases h : name = t.name
  · subst h
    rw [if_pos rfl]
    have hcomp : ((fun u : Table => u.name == t.name) ∘
        fun old => if old.name == t.name then t else old) = fun u => u.name == t.name := by
      funext u
      by_cases hu : u.name = t.name <;> simp [hu]
    rw [hcomp]
    cases hfind : db.find? fun u => u.name == t.name with
    | none => simp [hfind] at hold
    | some u =>
      have hu := List.find?_some hfind
      rw [beq_iff_eq] at hu
      simp [hu]
  · rw [if_neg h]
    have hcomp : ((fun u : Table => u.name == name) ∘
        fun old => if old.name == t.name then t else old) = fun u => u.name == name := by
      funext u
      by_cases hu : u.name = t.name
      · simp [hu]
      · simp [hu]
    rw [hcomp]
    cases hfind : db.find? fun u => u.name == name with
    | none => rfl
    | some u =>
      have hu : u.name ≠ t.name := by
        have := List.find?_some hfind
        simp only [beq_iff_eq] at this
        exact fun h' => h (this.symm.trans h')
      simp [hu]

/-- The row of a number in a table. -/
def row? (db : Database) (name : String) (k : Int) : Option Row :=
  match db.table name with
  | .ok t => t.rows.find? fun r => Row.get r "id" == .int k
  | .error _ => none

theorem row?_eq {name : String} {t : Table} (h : db.table name = .ok t) (k : Int) :
    db.row? name k = t.rows.find? fun r => Row.get r "id" == .int k := by
  simp [row?, h]

theorem row?_replace {t old : Table} (hold : db.table t.name = .ok old) (name : String)
    (k : Int) : (db.replace t).row? name k =
      if name = t.name then t.rows.find? (fun r => Row.get r "id" == .int k)
      else db.row? name k := by
  unfold row?
  rw [table_replace hold]
  by_cases h : name = t.name
  · simp [h]
  · simp [h]

end Database

end Hypermedia
