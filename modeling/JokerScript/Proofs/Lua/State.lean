import Mathlib.Logic.Function.Basic
import JokerScript.Proofs.Lua.Value
import JokerScript.Text.Pieces

/-!
# The State of a Run

A state holds the visible local variables, the global ones, the tables, and what the game
keeps beside them. A dotted path begins at a variable and goes from table to table.

The frame of an assignment is told by names alone: a field that a path does not mention
may change without any effect on the path (`State.read_setField`), whatever tables are
shared. So the laws of generated code need no assumption that tables are distinct.

## Main definitions

* `Lua.pathRoot`, `Lua.pathFields` — the variable and the fields of a path.
* `Lua.State`, `Lua.State.read`, `Lua.State.write` — states, and values at paths.

## Main results

* `Lua.State.read_child`, `Lua.State.write_child` — a path one field longer.
* `Lua.State.read_setField`, `Lua.State.read_push` — what leaves a path alone.
-/

namespace JokerScript

namespace Lua

/-! ### Paths -/

/-- The variable that a path begins at. -/
def pathRoot (p : String) : String := String.ofList (splitAt '.' p.toList).1

/-- The fields that a path goes through, in order. -/
def pathFields (p : String) : List String := (splitAt '.' p.toList).2.map String.ofList

/-- Does the name hold no dot, so that it is one field of a path? -/
def DotFree (name : String) : Prop := '.' ∉ name.toList

instance (name : String) : Decidable (DotFree name) :=
  inferInstanceAs (Decidable ('.' ∉ name.toList))

theorem DotFree.append {a b : String} (ha : DotFree a) (hb : DotFree b) : DotFree (a ++ b) := by
  rw [DotFree, String.toList_append, List.mem_append, not_or]
  exact ⟨ha, hb⟩

end Lua

theorem splitAt_of_notMem {sep : Char} {cs : List Char} (h : sep ∉ cs) :
    splitAt sep cs = (cs, []) := by
  induction cs with
  | nil => rfl
  | cons c cs ih =>
      rw [List.mem_cons, not_or] at h
      rw [splitAt, ih h.2]
      simp [Ne.symm h.1]

/-- The pieces of two texts with a separator between them. -/
theorem splitAt_append (sep : Char) (xs ys : List Char) :
    splitAt sep (xs ++ sep :: ys) =
      ((splitAt sep xs).1, (splitAt sep xs).2 ++ (splitAt sep ys).1 :: (splitAt sep ys).2) := by
  induction xs with
  | nil => simp [splitAt]
  | cons x xs ih =>
      rw [List.cons_append, splitAt, splitAt, ih]
      by_cases hx : x = sep <;> simp [hx]

namespace Lua

theorem toList_dot (p q : String) : (p ++ "." ++ q).toList = p.toList ++ '.' :: q.toList := by
  simp

theorem pathRoot_append (p q : String) : pathRoot (p ++ "." ++ q) = pathRoot p := by
  rw [pathRoot, toList_dot, splitAt_append, pathRoot]

theorem pathFields_append (p q : String) :
    pathFields (p ++ "." ++ q) = pathFields p ++ pathRoot q :: pathFields q := by
  rw [pathFields, toList_dot, splitAt_append, List.map_append, List.map_cons, pathFields, pathRoot,
    pathFields]

theorem pathRoot_of_dotFree {name : String} (h : DotFree name) : pathRoot name = name := by
  rw [pathRoot, splitAt_of_notMem h, String.ofList_toList]

theorem pathFields_of_dotFree {name : String} (h : DotFree name) : pathFields name = [] := by
  rw [pathFields, splitAt_of_notMem h, List.map_nil]

theorem pathFields_child (p : String) {name : String} (h : DotFree name) :
    pathFields (p ++ "." ++ name) = pathFields p ++ [name] := by
  rw [pathFields_append, pathRoot_of_dotFree h, pathFields_of_dotFree h]

/-! ### States -/

/-- A **table**: fields by name, and items in order. -/
structure Table where
  field : String → Value := fun _ => .nil
  /-- The items at `1`, `2`, `3`, …; none of them is `nil`. -/
  items : List Value := []

/-- The **state** of a run. -/
structure State (W : Type) where
  /-- The visible local variables, the newest first. -/
  locals : List (String × Value) := []
  globals : String → Value
  tables : ℕ → Table
  /-- The first address that no table has yet. -/
  fresh : ℕ
  /-- What the game keeps beside its tables: its random numbers, its pending events. -/
  world : W

/-- The local variables after an assignment to the newest one of a name. -/
def assignLocal (name : String) (v : Value) : List (String × Value) → List (String × Value)
  | [] => []
  | (x, w) :: rest =>
    if x = name then (x, v) :: rest else (x, w) :: assignLocal name v rest

namespace State

variable {W : Type}

/-- The value of a variable; a local one hides a global one. -/
def root (s : State W) (name : String) : Value := (s.locals.lookup name).getD (s.globals name)

/-- The value of a field. Only tables have fields. -/
def fieldOf (s : State W) : Value → String → Option Value
  | .table a, name => some ((s.tables a).field name)
  | _, _ => none

/-- The value at a path. It is an error to go on from a value that is no table. -/
def read (s : State W) (p : String) : Option Value :=
  (pathFields p).foldlM s.fieldOf (s.root (pathRoot p))

/-- The state after an assignment to a field of a table. -/
def setField (s : State W) (a : ℕ) (name : String) (v : Value) : State W :=
  { s with
    tables := Function.update s.tables a
      { s.tables a with field := Function.update (s.tables a).field name v } }

/-- The state with other items of a table. -/
def setItems (s : State W) (a : ℕ) (items : List Value) : State W :=
  { s with tables := Function.update s.tables a { s.tables a with items } }

/-- The state after an assignment to a variable. -/
def setRoot (s : State W) (name : String) (v : Value) : State W :=
  if (s.locals.lookup name).isSome then
    { s with locals := assignLocal name v s.locals }
  else
    { s with globals := Function.update s.globals name v }

/-- The state after an assignment to a path. -/
def write (s : State W) (p : String) (v : Value) : Option (State W) :=
  match (pathFields p).getLast? with
  | none => some (s.setRoot (pathRoot p) v)
  | some name =>
    match (pathFields p).dropLast.foldlM s.fieldOf (s.root (pathRoot p)) with
    | some (.table a) => some (s.setField a name v)
    | _ => none

/-- The state with one more local variable. -/
def push (s : State W) (name : String) (v : Value) : State W :=
  { s with locals := (name, v) :: s.locals }

/-- The state with a new local variable for each name; a name without a value gets `nil`. -/
def pushAll (s : State W) : List String → List Value → State W
  | [], _ => s
  | name :: names, vs => (s.push name (vs.headD .nil)).pushAll names vs.tail

/-- The state at the end of a block that began with `n` local variables. -/
def close (s : State W) (n : ℕ) : State W :=
  { s with locals := s.locals.drop (s.locals.length - n) }

/-- A new table. -/
def alloc (s : State W) (t : Table) : Value × State W :=
  (.table s.fresh, { s with tables := Function.update s.tables s.fresh t, fresh := s.fresh + 1 })

/-! ### Reading -/

theorem read_child {s : State W} {p name : String} {a : ℕ} (hn : DotFree name)
    (h : s.read p = some (.table a)) :
    s.read (p ++ "." ++ name) = some ((s.tables a).field name) := by
  rw [read, pathRoot_append p, pathFields_child p hn, List.foldlM_append, ← read, h]
  rfl

theorem read_child_inv {s : State W} {p name : String} {v : Value} (hn : DotFree name)
    (h : s.read (p ++ "." ++ name) = some v) : ∃ a, s.read p = some (.table a) := by
  rw [read, pathRoot_append p, pathFields_child p hn, List.foldlM_append, ← read] at h
  cases hp : s.read p with
  | none =>
      rw [hp] at h
      cases h
  | some w =>
      rw [hp] at h
      cases w with
      | table a => exact ⟨a, rfl⟩
      | _ => cases h

theorem read_of_dotFree (s : State W) {name : String} (hn : DotFree name) :
    s.read name = some (s.root name) := by
  rw [read, pathFields_of_dotFree hn, pathRoot_of_dotFree hn]
  rfl

theorem lookup_push_of_ne (s : State W) {name x : String} (v : Value) (h : name ≠ x) :
    (s.push x v).locals.lookup name = s.locals.lookup name := by
  simp [push, List.lookup_cons, beq_eq_false_iff_ne.mpr h]

theorem root_push_self (s : State W) (name : String) (v : Value) :
    (s.push name v).root name = v := by
  simp [root, push]

theorem root_push_of_ne (s : State W) {name x : String} (v : Value) (h : name ≠ x) :
    (s.push x v).root name = s.root name := by
  rw [root, lookup_push_of_ne s v h, root]
  rfl

/-- A new local variable hides only the paths that begin at it. -/
theorem read_push (s : State W) {p x : String} (v : Value) (h : pathRoot p ≠ x) :
    (s.push x v).read p = s.read p := by
  rw [read, root_push_of_ne s v h]
  rfl

theorem read_push_self (s : State W) {x : String} (v : Value) (h : DotFree x) :
    (s.push x v).read x = some v := by
  rw [read_of_dotFree _ h, root_push_self]

/-! ### Assignments -/

theorem write_child {s : State W} {p name : String} {a : ℕ} (v : Value) (hn : DotFree name)
    (h : s.read p = some (.table a)) :
    s.write (p ++ "." ++ name) v = some (s.setField a name v) := by
  rw [write, pathRoot_append p, pathFields_child p hn, List.getLast?_concat,
    List.dropLast_concat]
  rw [read] at h
  simp only [h]

theorem write_of_dotFree (s : State W) {name : String} (v : Value) (hn : DotFree name) :
    s.write name v = some (s.setRoot name v) := by
  rw [write, pathFields_of_dotFree hn, pathRoot_of_dotFree hn]
  rfl

theorem setRoot_push_self (s : State W) (name : String) (v w : Value) :
    (s.push name v).setRoot name w = s.push name w := by
  simp [setRoot, push, assignLocal]

theorem lookup_assignLocal_of_ne {x name : String} (hx : x ≠ name) (v : Value)
    (locals : List (String × Value)) :
    (assignLocal name v locals).lookup x = locals.lookup x := by
  induction locals with
  | nil => rfl
  | cons p rest ih =>
      rw [assignLocal]
      split
      · rename_i hname
        have hne : (x == p.1) = false := beq_eq_false_iff_ne.mpr (hname ▸ hx)
        rw [List.lookup_cons, List.lookup_cons, hne]
      · rw [List.lookup_cons, List.lookup_cons, ih]

theorem length_assignLocal (name : String) (v : Value) (locals : List (String × Value)) :
    (assignLocal name v locals).length = locals.length := by
  induction locals with
  | nil => rfl
  | cons p rest ih =>
      rw [assignLocal]
      split
      · rfl
      · rw [List.length_cons, List.length_cons, ih]

@[simp] theorem fresh_setRoot (s : State W) (name : String) (v : Value) :
    (s.setRoot name v).fresh = s.fresh := by
  rw [setRoot]
  split <;> rfl

@[simp] theorem tables_setRoot (s : State W) (name : String) (v : Value) :
    (s.setRoot name v).tables = s.tables := by
  rw [setRoot]
  split <;> rfl

@[simp] theorem world_setRoot (s : State W) (name : String) (v : Value) :
    (s.setRoot name v).world = s.world := by
  rw [setRoot]
  split <;> rfl

/-- An assignment is none of the game's affairs. -/
theorem world_of_write {s t : State W} {p : String} {v : Value} (h : s.write p v = some t) :
    t.world = s.world := by
  rw [write] at h
  split at h
  · obtain rfl := Option.some.inj h
    exact world_setRoot s _ v
  · split at h
    · obtain rfl := Option.some.inj h
      rfl
    · cases h

theorem length_setRoot (s : State W) (name : String) (v : Value) :
    (s.setRoot name v).locals.length = s.locals.length := by
  rw [setRoot]
  split
  · exact length_assignLocal name v s.locals
  · rfl

theorem lookup_setRoot_of_ne (s : State W) {x name : String} (hx : x ≠ name) (v : Value) :
    (s.setRoot name v).locals.lookup x = s.locals.lookup x := by
  rw [setRoot]
  split
  · exact lookup_assignLocal_of_ne hx v s.locals
  · rfl

/-- An assignment to a variable touches only the paths that begin at it. -/
theorem root_setRoot_of_ne (s : State W) {x name : String} (hx : x ≠ name) (v : Value) :
    (s.setRoot name v).root x = s.root x := by
  rw [root, lookup_setRoot_of_ne s hx, setRoot]
  split
  · rfl
  · simp only [Function.update_of_ne hx, root]

theorem read_setRoot_of_ne (s : State W) {p name : String} (hp : pathRoot p ≠ name) (v : Value) :
    (s.setRoot name v).read p = s.read p := by
  have hfield : (s.setRoot name v).fieldOf = s.fieldOf := by
    funext w x
    cases w <;> first | rfl | rw [fieldOf, fieldOf, tables_setRoot]
  rw [read, read, root_setRoot_of_ne s hp, hfield]

theorem field_setField (s : State W) (a b : ℕ) (name x : String) (v : Value) :
    ((s.setField a name v).tables b).field x =
      if b = a ∧ x = name then v else (s.tables b).field x := by
  by_cases hb : b = a
  · subst hb
    by_cases hx : x = name <;> simp [setField, hx]
  · simp [setField, hb]

/-- **The frame of an assignment.** A path that does not mention the name of the field is
read as before. -/
theorem read_setField (s : State W) (a : ℕ) {p name : String} (v : Value)
    (h : name ∉ pathFields p) : (s.setField a name v).read p = s.read p := by
  have hfold : ∀ (names : List String) (w : Value), name ∉ names →
      names.foldlM (s.setField a name v).fieldOf w = names.foldlM s.fieldOf w := by
    intro names
    induction names with
    | nil => intro w _; rfl
    | cons x names ih =>
        intro w hx
        rw [List.mem_cons, not_or] at hx
        have hfield : (s.setField a name v).fieldOf w x = s.fieldOf w x := by
          cases w with
          | table b =>
              rw [fieldOf, fieldOf, field_setField, if_neg]
              exact fun hbx => hx.1 hbx.2.symm
          | _ => rfl
        rw [List.foldlM_cons, List.foldlM_cons, hfield]
        exact bind_congr fun u => ih u hx.2
  exact hfold _ _ h

/-- A field after an assignment to one of the same name or of another. -/
theorem read_child_setField {s : State W} {p x name : String} {b : ℕ} (a : ℕ) (v : Value)
    (hx : DotFree x) (hp : s.read p = some (.table b)) (hname : name ∉ pathFields p) :
    (s.setField a name v).read (p ++ "." ++ x) =
      some (if b = a ∧ x = name then v else (s.tables b).field x) := by
  rw [read_child hx ((s.read_setField a v hname).trans hp), field_setField]

theorem setField_self (s : State W) (a : ℕ) (name : String) :
    s.setField a name ((s.tables a).field name) = s := by
  simp [setField]

theorem setField_setField (s : State W) (a : ℕ) (name : String) (v w : Value) :
    (s.setField a name v).setField a name w = s.setField a name w := by
  simp [setField]

@[simp] theorem items_setField (s : State W) (a b : ℕ) (name : String) (v : Value) :
    ((s.setField a name v).tables b).items = (s.tables b).items := by
  by_cases hb : b = a
  · subst hb; simp [setField]
  · simp [setField, hb]

/-! ### Blocks -/

@[simp] theorem locals_push (s : State W) (name : String) (v : Value) :
    (s.push name v).locals = (name, v) :: s.locals := rfl

@[simp] theorem close_length (s : State W) : s.close s.locals.length = s := by
  simp [close]

theorem close_push (s : State W) {n : ℕ} (name : String) (v : Value)
    (h : n ≤ s.locals.length) : (s.push name v).close n = s.close n := by
  have hn : (s.locals.length + 1) - n = (s.locals.length - n) + 1 := by omega
  simp [close, push, hn]

end State

end Lua

end JokerScript
