import JokerScript.Proofs.Lua.Calls

/-!
# What a Run Leaves Alone

A run of generated code makes local variables, assigns to some fields of tables, and calls the
game, which makes tables of its own. Everything else that was there is as before. In a sound
state, where no reference leads to a table that is not there yet, the new tables are out of
reach of the old ones, so that a path which goes through no assigned field is read as before.

## Main definitions

* `Lua.State.Sound` — every reference leads to a table that is there.
* `Lua.State.ChangesOnly` — everything but some fields is as before.

## Main results

* `Lua.State.ChangesOnly.read`, `Lua.State.ChangesOnly.read_child` — paths that are read as
  before.
-/

namespace JokerScript

namespace Lua

/-- Does the value refer to no table from the address `n` on? -/
def Value.IsBelow (n : ℕ) : Value → Prop
  | table a => a < n
  | _ => True

instance (n : ℕ) : (v : Value) → Decidable (v.IsBelow n)
  | .table a => inferInstanceAs (Decidable (a < n))
  | .nil | .bool _ | .number _ | .str _ | .native _ | .closure .. | .entries _ => isTrue trivial

/-- What is looked up in a list is in it, or it is `nil`. -/
theorem Value.getD_lookup_of_forall {P : Value → Prop} {fields : List (String × Value)}
    (hnil : P .nil) (h : ∀ p ∈ fields, P p.2) (name : String) :
    P ((fields.lookup name).getD .nil) := by
  cases hlookup : fields.lookup name with
  | none => exact hnil
  | some v =>
      obtain ⟨before, after, rfl, -⟩ := List.lookup_eq_some_iff.mp hlookup
      exact h (name, v) (by simp)

namespace State

variable {W : Type} {s t u : State W} {added : List (String × Value)}
  {fields : List (ℕ × String)}

/-- A state is **sound** if every reference leads to a table that is there. -/
structure Sound (s : State W) : Prop where
  root : ∀ name, (s.root name).IsBelow s.fresh
  field : ∀ a < s.fresh, ∀ name, ((s.tables a).field name).IsBelow s.fresh

/-- The second state has the local variables `added` before those of the first one, and of the
tables that were there **only** the named fields may have **changed**. -/
structure ChangesOnly (added : List (String × Value)) (fields : List (ℕ × String))
    (s t : State W) : Prop where
  locals : t.locals = added ++ s.locals
  globals : t.globals = s.globals
  fresh : s.fresh ≤ t.fresh
  field : ∀ a < s.fresh, ∀ name, (a, name) ∉ fields →
    (t.tables a).field name = (s.tables a).field name
  items : ∀ a < s.fresh, (t.tables a).items = (s.tables a).items

/-- What a path leads to is there. -/
theorem Sound.read (hs : s.Sound) {p : String} {v : Value} (h : s.read p = some v) :
    v.IsBelow s.fresh := by
  -- Induction on the fields that are left; each step ends at a value that is below again.
  have hfold : ∀ (names : List String) (w : Value), w.IsBelow s.fresh →
      names.foldlM s.fieldOf w = some v → v.IsBelow s.fresh := by
    intro names
    induction names with
    | nil =>
        intro w hw hv
        obtain rfl := Option.some.inj hv
        exact hw
    | cons name names ih =>
        intro w hw hv
        cases w with
        | table a => exact ih _ (hs.field a hw name) hv
        | _ => cases hv
  exact hfold _ _ (hs.root _) h

namespace ChangesOnly

theorem refl (s : State W) (fields : List (ℕ × String)) : s.ChangesOnly [] fields s :=
  ⟨rfl, rfl, le_rfl, fun _ _ _ _ => rfl, fun _ _ => rfl⟩

/-- New tables are no change. -/
theorem grows (h : s.ChangesOnly added fields t) (htu : t.Grows u) :
    s.ChangesOnly added fields u where
  locals := htu.locals.trans h.locals
  globals := htu.globals.trans h.globals
  fresh := h.fresh.trans htu.fresh
  field a ha name hname := by
    rw [htu.tables a (ha.trans_le h.fresh)]
    exact h.field a ha name hname
  items a ha := by
    rw [htu.tables a (ha.trans_le h.fresh)]
    exact h.items a ha

theorem setField (h : s.ChangesOnly added fields t) {a : ℕ} {name : String}
    (ha : (a, name) ∈ fields) (v : Value) : s.ChangesOnly added fields (t.setField a name v) where
  locals := h.locals
  globals := h.globals
  fresh := h.fresh
  field b hb x hx := by
    rw [field_setField, if_neg, h.field b hb x hx]
    rintro ⟨rfl, rfl⟩
    exact hx ha
  items b hb := by rw [items_setField, h.items b hb]

theorem push (h : s.ChangesOnly added fields t) (name : String) (v : Value) :
    s.ChangesOnly ((name, v) :: added) fields (t.push name v) where
  locals := by rw [locals_push, h.locals, List.cons_append]
  globals := h.globals
  fresh := h.fresh
  field := h.field
  items := h.items

section Read

variable (h : s.ChangesOnly added fields t)

include h

theorem lookup {name : String} (hname : added.lookup name = none) :
    t.locals.lookup name = s.locals.lookup name := by
  rw [h.locals, List.lookup_append, hname, Option.none_or]

theorem root {name : String} (hname : added.lookup name = none) : t.root name = s.root name := by
  rw [State.root, h.lookup hname, h.globals, State.root]

variable (hs : s.Sound) {p : String} (hroot : added.lookup (pathRoot p) = none)
  (hp : ∀ f ∈ fields, f.2 ∉ pathFields p)

include hs hroot hp

/-- **A path through no changed field** is read as before. -/
theorem read : t.read p = s.read p := by
  -- Both states go through the same tables, and all of these were there in the first one.
  have hfold : ∀ (names : List String) (w : Value), w.IsBelow s.fresh →
      (∀ f ∈ fields, f.2 ∉ names) → names.foldlM t.fieldOf w = names.foldlM s.fieldOf w := by
    intro names
    induction names with
    | nil => intro w _ _; rfl
    | cons name names ih =>
        intro w hw hnames
        cases w with
        | table a =>
            have hfield : (t.tables a).field name = (s.tables a).field name :=
              h.field a hw name fun hmem => hnames _ hmem List.mem_cons_self
            have hrest := ih _ (hs.field a hw name) fun f hf hmem =>
              hnames f hf (List.mem_cons_of_mem name hmem)
            rw [List.foldlM_cons, List.foldlM_cons, fieldOf, fieldOf, hfield]
            exact hrest
        | _ => rfl
  rw [State.read, h.root hroot, hfold _ _ (hs.root _) hp, State.read]

/-- A field of a table at such a path, unless it is changed itself. -/
theorem read_child {name : String} {a : ℕ} (hname : DotFree name)
    (ha : s.read p = some (.table a)) (hnot : (a, name) ∉ fields) :
    t.read (p ++ "." ++ name) = s.read (p ++ "." ++ name) := by
  have hbelow : a < s.fresh := hs.read ha
  rw [State.read_child hname ((h.read hs hroot hp).trans ha), State.read_child hname ha,
    h.field a hbelow name hnot]

end Read

end ChangesOnly

/-- Where only new tables come up, every path is read as before. -/
theorem Sound.read_of_grows (hs : s.Sound) (h : s.Grows t) (p : String) : t.read p = s.read p :=
  ((ChangesOnly.refl s []).grows h).read hs rfl fun _ hf => absurd hf List.not_mem_nil

end State

end Lua

end JokerScript
