import Hypermedia.Proofs.Relational.Numbers

/-!
# What is wished of the cells of a database

A payload that gives values, and records that are there already, wishes that a record has them
(`Wish`). What the tables are to have then is what they have now, changed cell by cell
(`Cells.grant`): the record has its values and the numbers of the records that its columns refer
to, and among the records that could belong to it the ones that are given do and no others.

What becomes of one cell is always what is there, or a value that does not depend on it, or nothing
in the place of the number of the record (`Steady`). So a wish that is granted changes nothing when
it is granted again (`Cells.grantAll_eq_self`), even if a later wish of the payload undoes an
earlier one.
-/

namespace Hypermedia

/-- What a field of a record is to have: a value, the number of another record or nothing, or the
numbers of all the others. -/
inductive Wish where
  | value (v : Value)
  | one (number : Option Int)
  | many (numbers : List Int)

/-- A value, or nothing in the place of a number. -/
def Value.without (k : Int) : Value → Value
  | .int i => if i = k then .null else .int i
  | v => v

/-- What a column keeps of a value that is given to it, if it accepts it. -/
def Column.settled? (x : Column) (hasRoom : Nat → Bool) (v : Value) : Option Value :=
  match x.type.parse hasRoom x.name v with
  | .ok w => (x.type.store w).toOption
  | .error _ => none

namespace Cells

/-- Other cells in a column of a table. -/
def change (G : Cells) (table column : String) (f : Int → Value → Value) : Cells :=
  fun t x j => if t = table ∧ x = column then f j (G t x j) else G t x j

/-- One row has another value in a column. -/
def put (G : Cells) (table column : String) (k : Int) (w : Value) : Cells :=
  G.change table column fun j v => if j = k then w else v

/-- Some rows have a number in a column, and no others have it there. -/
def gather (G : Cells) (table column : String) (k : Int) (js : List Int) : Cells :=
  G.change table column fun j v => if j ∈ js then .int k else v.without k

/-- The cells after a wish of the record of a model with a number is granted. What does not fit the
model is ignored. -/
def grant (c : Catalog) (m : Model) (k : Int) (G : Cells) (f : String × Wish) : Cells :=
  match m.link? f.1, f.2 with
  | some l, .one number =>
    match l.kind with
    | .reference column => G.put m.rootTable column k (number.elim .null .int)
    | _ => G
  | some l, .many numbers =>
    match l.kind, c.model? l.target with
    | .members column, some target => G.gather target.rootTable column k numbers
    | _, _ => G
  | none, .value v =>
    match (m.column? f.1).bind fun x => x.column.settled? c.hasRoom v with
    | some w => G.put m.rootTable f.1 k w
    | none => G
  | _, _ => G

/-- The cells after wishes are granted one after the other. -/
def grantAll (c : Catalog) (m : Model) (k : Int) (G : Cells) (ws : List (String × Wish)) : Cells :=
  ws.foldl (grant c m k) G

end Cells

/-! ## What becomes of one cell -/

/-- A change of a cell that leaves it, or puts a value there, or removes a number. -/
inductive Steady (k : Int) : (Value → Value) → Prop
  | same : Steady k fun v => v
  | value (w : Value) : Steady k fun _ => w
  | without : Steady k (Value.without k)

theorem Value.without_self (k : Int) : (Value.int k).without k = .null := by
  simp [without]

theorem Value.without_of_ne {k : Int} {v : Value} (h : v ≠ .int k) : v.without k = v := by
  cases v with
  | int i => exact if_neg fun hi => h (congrArg Value.int hi)
  | _ => rfl

theorem Value.without_without (k : Int) (v : Value) : (v.without k).without k = v.without k := by
  by_cases h : v = .int k
  · subst h
    rw [without_self]
    rfl
  · rw [without_of_ne h]
    exact without_of_ne h

namespace Steady

variable {k : Int} {f g : Value → Value}

/-- Making such a change again changes nothing. -/
theorem idem (h : Steady k f) (v : Value) : f (f v) = f v := by
  cases h with
  | same => rfl
  | value w => rfl
  | without => exact v.without_without k

/-- One such change after another is one such change. -/
theorem comp (hf : Steady k f) (hg : Steady k g) : Steady k fun v => g (f v) := by
  cases hg with
  | same => exact hf
  | value w => exact .value w
  | without =>
    cases hf with
    | same => exact .without
    | value w => exact .value (w.without k)
    | without =>
      rw [funext (Value.without_without k)]
      exact .without

end Steady

namespace Cells

variable {c : Catalog} {m : Model} {k : Int}

/-- A change of all cells that is steady at each of them. -/
def IsSteady (k : Int) (F : Cells → Cells) : Prop :=
  ∃ f : String → String → Int → Value → Value, (∀ t x j, Steady k (f t x j)) ∧
    ∀ G, F G = fun t x j => f t x j (G t x j)

theorem isSteady_self : IsSteady k fun G => G := ⟨_, fun _ _ _ => .same, fun _ => rfl⟩

theorem isSteady_change (table column : String) {f : Int → Value → Value}
    (hf : ∀ j, Steady k (f j)) : IsSteady k fun G => G.change table column f := by
  refine ⟨fun t x j v => if t = table ∧ x = column then f j v else v, fun t x j => ?_,
    fun G => rfl⟩
  by_cases h : t = table ∧ x = column
  · simpa only [h, and_self, if_true] using hf j
  · simpa only [h, if_false] using Steady.same

theorem isSteady_put (table column : String) (w : Value) :
    IsSteady k fun G => G.put table column k w := by
  refine isSteady_change table column fun j => ?_
  by_cases h : j = k
  · simpa only [h, if_true] using Steady.value w
  · simpa only [h, if_false] using Steady.same

theorem isSteady_gather (table column : String) (js : List Int) :
    IsSteady k fun G => G.gather table column k js := by
  refine isSteady_change table column fun j => ?_
  by_cases h : j ∈ js
  · simpa only [h, if_true] using Steady.value (.int k)
  · simpa only [h, if_false] using Steady.without

theorem isSteady_grant (f : String × Wish) : IsSteady k fun G => grant c m k G f := by
  unfold grant
  split
  · split
    · exact isSteady_put _ _ _
    · exact isSteady_self
  · split
    · exact isSteady_gather _ _ _
    · exact isSteady_self
  · split
    · exact isSteady_put _ _ _
    · exact isSteady_self
  · exact isSteady_self

theorem isSteady_grantAll (ws : List (String × Wish)) :
    IsSteady k fun G => grantAll c m k G ws := by
  induction ws with
  | nil => exact isSteady_self
  | cons w ws ih =>
    obtain ⟨f, hf, hgrant⟩ := isSteady_grant (c := c) (m := m) (k := k) w
    obtain ⟨g, hg, hrest⟩ := ih
    refine ⟨fun t x j v => g t x j (f t x j v), fun t x j => (hf t x j).comp (hg t x j),
      fun G => ?_⟩
    have hfirst : grant c m k G w = fun t x j => f t x j (G t x j) := hgrant G
    exact (congrArg (grantAll c m k · ws) hfirst).trans (hrest _)

/-- Where a cell has what was wished it stays as it is when the wishes are granted again. -/
theorem grantAll_eq_self {G G' : Cells} {ws : List (String × Wish)} {table column : String}
    {j : Int} (h : G' table column j = grantAll c m k G ws table column j) :
    grantAll c m k G' ws table column j = G' table column j := by
  obtain ⟨f, hf, hgrant⟩ := isSteady_grantAll (c := c) (m := m) (k := k) ws
  have hcell : ∀ G, grantAll c m k G ws table column j =
      f table column j (G table column j) := fun G => congrFun₃ (hgrant G) table column j
  rw [hcell] at h ⊢
  rw [h, (hf table column j).idem]

end Cells

end Hypermedia
