import JokerScript.Proofs.Lua.Frame

/-!
# Renamed Tables

Generated code gets hold of a table only by way of a variable or a field, and never sees its
address. So two runs may differ in the addresses of tables and still come to the same. A
**renaming** tells which table of the second run stands for which one of the first. It is a
function on addresses, and it takes the new tables of the first run to those of the second, in
the order in which they are made.

Some calls show a text to the player, and nothing that the code does later depends on them.
What the game keeps is compared without these calls.

## Main definitions

* `Lua.Value.rename`, `Lua.Value.Within` — renamed values, and values without new tables.
* `Lua.Memory`, `Lua.Memory.silent` — what the game keeps, with and without the texts.
* `Lua.State.Renames` — the second state is the first one with renamed tables.
* `Lua.State.Contained` — no new table is mentioned anywhere in the state.

## Main results

* `Lua.State.Renames.read`, `Lua.State.Renames.write_cases` — paths lead to the same places.
* `Lua.State.Contained.exists_renames` — growth without any other effect is a renaming.
-/

namespace JokerScript

namespace Lua

/-! ### Values -/

mutual

/-- The value, when each table moves from its address `a` to `σ a`. -/
def Value.rename (σ : ℕ → ℕ) : Value → Value
  | .table a => .table (σ a)
  | .closure params body captured => .closure params body (renameLocals σ captured)
  | .entries items => .entries (renameEntries σ items)
  | .nil => .nil
  | .bool b => .bool b
  | .number n => .number n
  | .str t => .str t
  | .native name => .native name

/-- The same for local variables. -/
def renameLocals (σ : ℕ → ℕ) : List (String × Value) → List (String × Value)
  | [] => []
  | (name, v) :: rest => (name, v.rename σ) :: renameLocals σ rest

/-- The same for what a loop goes through. -/
def renameEntries (σ : ℕ → ℕ) : List (Value × Value) → List (Value × Value)
  | [] => []
  | (key, value) :: rest => (key.rename σ, value.rename σ) :: renameEntries σ rest

end

section Values

variable {σ : ℕ → ℕ} {n m : ℕ} {v w : Value} {locals : List (String × Value)}

mutual

theorem Value.rename_id : ∀ v : Value, v.rename id = v
  | .table _ | .nil | .bool _ | .number _ | .str _ | .native _ => rfl
  | .closure params body captured => by rw [Value.rename, renameLocals_id captured]
  | .entries items => by rw [Value.rename, renameEntries_id items]

theorem renameLocals_id : ∀ locals : List (String × Value), renameLocals id locals = locals
  | [] => rfl
  | (name, v) :: rest => by rw [renameLocals, v.rename_id, renameLocals_id rest]

theorem renameEntries_id : ∀ items : List (Value × Value), renameEntries id items = items
  | [] => rfl
  | (key, value) :: rest => by
      rw [renameEntries, key.rename_id, value.rename_id, renameEntries_id rest]

end

@[simp] theorem Value.truthy_rename (σ : ℕ → ℕ) (v : Value) :
    (v.rename σ).truthy = v.truthy := by
  cases v with
  | bool b => cases b <;> rfl
  | _ => rfl

/-- Different tables stay different. -/
theorem Value.same_rename (hσ : σ.Injective) (v w : Value) :
    (v.rename σ).same (w.rename σ) = v.same w := by
  cases v <;> cases w <;> first | rfl | simp [rename, same, hσ.eq_iff]

theorem renameLocals_eq_map (locals : List (String × Value)) :
    renameLocals σ locals = locals.map fun p => (p.1, p.2.rename σ) := by
  induction locals with
  | nil => rfl
  | cons p rest ih => rw [renameLocals, ih, List.map_cons]

@[simp] theorem length_renameLocals (locals : List (String × Value)) :
    (renameLocals σ locals).length = locals.length := by
  rw [renameLocals_eq_map, List.length_map]

theorem lookup_renameLocals (name : String) (locals : List (String × Value)) :
    (renameLocals σ locals).lookup name = (locals.lookup name).map (Value.rename σ) := by
  induction locals with
  | nil => rfl
  | cons p rest ih =>
      rw [renameLocals, List.lookup_cons, List.lookup_cons, ih]
      split <;> rfl

theorem renameLocals_assignLocal (name : String) (v : Value) (locals : List (String × Value)) :
    renameLocals σ (assignLocal name v locals) =
      assignLocal name (v.rename σ) (renameLocals σ locals) := by
  induction locals with
  | nil => rfl
  | cons p rest ih =>
      rw [assignLocal, renameLocals, assignLocal]
      split
      · rfl
      · rw [renameLocals, ih]

/-! ### Values without new tables -/

/-- No table from the address `n` on occurs in the value, be it in what a function has captured:
a renaming that **keeps** the addresses below `n` leaves the value as it is. -/
def Value.Within (n : ℕ) (v : Value) : Prop :=
  ∀ σ : ℕ → ℕ, (∀ a < n, σ a = a) → v.rename σ = v

theorem Value.Within.mono (h : v.Within n) (hnm : n ≤ m) : v.Within m :=
  fun σ hσ => h σ fun a ha => hσ a (ha.trans_le hnm)

theorem Value.within_table {a : ℕ} : (Value.table a).Within n ↔ a < n := by
  refine ⟨fun h => ?_, fun ha σ hσ => congrArg Value.table (hσ a ha)⟩
  -- A renaming that moves all addresses from `n` on does not move this one.
  by_contra ha
  have hmoved := h (fun b => if b < n then b else b + 1) fun b hb => if_pos hb
  rw [rename, if_neg ha] at hmoved
  exact absurd (table.inj hmoved) (Nat.succ_ne_self a)

theorem renameLocals_of_within (hlocals : ∀ p ∈ locals, p.2.Within n) (hσ : ∀ a < n, σ a = a) :
    renameLocals σ locals = locals := by
  rw [renameLocals_eq_map]
  refine (List.map_congr_left fun p hp => ?_).trans (List.map_id locals)
  rw [hlocals p hp σ hσ, id]

theorem Value.within_closure {params : List String} {body : Block}
    (hlocals : ∀ p ∈ locals, p.2.Within n) : (Value.closure params body locals).Within n :=
  fun σ hσ => by rw [rename, renameLocals_of_within hlocals hσ]

theorem Value.Within.isBelow (h : v.Within n) : v.IsBelow n := by
  cases v with
  | table a => exact within_table.mp h
  | _ => trivial

/-- What is looked up among such values is such a value. -/
theorem Value.within_of_lookup (hlocals : ∀ p ∈ locals, p.2.Within n) {name : String}
    (h : locals.lookup name = some v) : v.Within n := by
  obtain ⟨before, after, rfl, -⟩ := List.lookup_eq_some_iff.mp h
  exact hlocals (name, v) (by simp)

theorem forall_within_assignLocal (hlocals : ∀ p ∈ locals, p.2.Within n) (hv : v.Within n)
    (name : String) : ∀ p ∈ assignLocal name v locals, p.2.Within n := by
  induction locals with
  | nil => exact fun p hp => absurd hp List.not_mem_nil
  | cons q rest ih =>
      rw [List.forall_mem_cons] at hlocals
      rw [assignLocal]
      split
      · exact List.forall_mem_cons.mpr ⟨hv, hlocals.2⟩
      · exact List.forall_mem_cons.mpr ⟨hlocals.1, ih hlocals.2⟩

/-! ### Tables -/

/-- The second table is the first one with renamed values. -/
structure Table.Renames (σ : ℕ → ℕ) (table table' : Table) : Prop where
  field : ∀ name, table'.field name = (table.field name).rename σ
  items : table'.items = table.items.map (Value.rename σ)

/-- No table from the address `n` on occurs in the table. -/
structure Table.Within (n : ℕ) (table : Table) : Prop where
  field : ∀ name, (table.field name).Within n
  items : ∀ v ∈ table.items, v.Within n

theorem Table.Renames.setField {table table' : Table} (h : table.Renames σ table')
    (name : String) (v : Value) :
    Table.Renames σ { table with field := Function.update table.field name v }
      { table' with field := Function.update table'.field name (v.rename σ) } where
  field x := by
    by_cases hx : x = name
    · subst hx; simp
    · simp [hx, h.field]
  items := h.items

theorem Table.Within.setField {table : Table} (h : table.Within n) (name : String)
    (hv : v.Within n) :
    Table.Within n { table with field := Function.update table.field name v } where
  field x := by
    by_cases hx : x = name
    · subst hx; simpa using hv
    · simpa [hx] using h.field x
  items := h.items

theorem Table.Within.mono {table : Table} (h : table.Within n) (hnm : n ≤ m) : table.Within m :=
  ⟨fun name => (h.field name).mono hnm, fun v hv => (h.items v hv).mono hnm⟩

end Values

/-! ### What the game keeps -/

namespace HostCall

/-- The call, when the tables move. -/
def rename (σ : ℕ → ℕ) : HostCall → HostCall
  | function name args => function name (args.map (Value.rename σ))
  | method receiver name args =>
    method (receiver.rename σ) name (args.map (Value.rename σ))

/-- Does the call show a text, or make one? -/
def isText : HostCall → Bool
  | function name _ => ["card_eval_status_text", "tostring", "localize"].contains name
  | method .. => false

@[simp] theorem isText_rename (σ : ℕ → ℕ) (call : HostCall) :
    (call.rename σ).isText = call.isText := by
  cases call <;> rfl

end HostCall

/-- What the game **keeps** beside its tables. -/
structure Memory (R : Type) where
  /-- The scheduled events, in order. -/
  events : List Value := []
  /-- The calls that it has answered, in order. -/
  record : List HostCall := []
  /-- All the rest, and its random numbers in particular. -/
  rest : R

namespace Memory

variable {R : Type} {σ : ℕ → ℕ} {w w' : Memory R} {n : ℕ}

/-- The same **without** the calls for texts. -/
def silent (w : Memory R) : Memory R := { w with record := w.record.filter fun c => !c.isText }

/-- The same, when the tables move. -/
def rename (σ : ℕ → ℕ) (w : Memory R) : Memory R :=
  { w with events := w.events.map (Value.rename σ), record := w.record.map (HostCall.rename σ) }

/-- No table from the address `n` on is mentioned, apart from those in calls for texts. -/
def Within (n : ℕ) (w : Memory R) : Prop :=
  ∀ σ : ℕ → ℕ, (∀ a < n, σ a = a) → w.silent.rename σ = w.silent

/-- The second memory is the first one with renamed tables, apart from calls for texts. -/
def Renames (σ : ℕ → ℕ) (w w' : Memory R) : Prop := w'.silent = w.silent.rename σ

theorem rename_id (w : Memory R) : w.rename id = w := by
  have hvalues : ∀ vs : List Value, vs.map (Value.rename id) = vs := fun vs =>
    (List.map_congr_left fun v _ => v.rename_id).trans (List.map_id vs)
  have hcall : ∀ c : HostCall, c.rename id = c := by
    rintro (⟨name, args⟩ | ⟨receiver, name, args⟩)
    · rw [HostCall.rename, hvalues]
    · rw [HostCall.rename, hvalues, receiver.rename_id]
  have hcalls : w.record.map (HostCall.rename id) = w.record :=
    (List.map_congr_left fun c _ => hcall c).trans (List.map_id _)
  rw [rename, hvalues, hcalls]

theorem Within.mono {m : ℕ} (h : w.Within n) (hnm : n ≤ m) : w.Within m :=
  fun σ hσ => h σ fun a ha => hσ a (ha.trans_le hnm)

end Memory

/-! ### States -/

namespace State

variable {R : Type} {σ : ℕ → ℕ} {s t u : State (Memory R)} {v : Value} {name : String} {a : ℕ}

/-- The second state is the first one with **renamed tables**, and it may differ in calls for
texts. The tables to come are the same in both. -/
structure Renames (σ : ℕ → ℕ) (s t : State (Memory R)) : Prop where
  injective : σ.Injective
  fresh : ∀ i, σ (s.fresh + i) = t.fresh + i
  locals : t.locals = renameLocals σ s.locals
  globals : ∀ name, t.globals name = (s.globals name).rename σ
  tables : ∀ a < s.fresh, (s.tables a).Renames σ (t.tables (σ a))
  world : s.world.Renames σ t.world

/-- **No new table** is mentioned in the state. -/
structure Contained (s : State (Memory R)) : Prop where
  locals : ∀ p ∈ s.locals, p.2.Within s.fresh
  globals : ∀ name, (s.globals name).Within s.fresh
  tables : ∀ a < s.fresh, (s.tables a).Within s.fresh
  world : s.world.Within s.fresh

theorem renames_id (s : State (Memory R)) : s.Renames id s where
  injective := Function.injective_id
  fresh _ := rfl
  locals := (renameLocals_id _).symm
  globals name := (Value.rename_id _).symm
  tables a _ := by
    have hvalues : (s.tables a).items.map (Value.rename id) = (s.tables a).items :=
      (List.map_congr_left fun v _ => v.rename_id).trans (List.map_id _)
    exact ⟨fun name => (Value.rename_id _).symm, hvalues.symm⟩
  world := (Memory.rename_id _).symm

/-! ### Reading -/

namespace Contained

theorem root (h : s.Contained) (name : String) : (s.root name).Within s.fresh := by
  rw [State.root]
  cases hlookup : s.locals.lookup name with
  | none => exact h.globals name
  | some v => exact Value.within_of_lookup h.locals hlookup

theorem sound (h : s.Contained) : s.Sound :=
  ⟨fun name => (h.root name).isBelow, fun a ha name => ((h.tables a ha).field name).isBelow⟩

/-- The values along a path. -/
theorem foldlM (h : s.Contained) {names : List String} {w : Value} (hw : w.Within s.fresh)
    (hv : names.foldlM s.fieldOf w = some v) : v.Within s.fresh := by
  induction names generalizing w with
  | nil =>
      obtain rfl := Option.some.inj hv
      exact hw
  | cons name names ih =>
      cases w with
      | table a => exact ih ((h.tables a (Value.within_table.mp hw)).field name) hv
      | _ => cases hv

theorem read (h : s.Contained) {p : String} (hv : s.read p = some v) : v.Within s.fresh :=
  h.foldlM (h.root _) hv

end Contained

namespace Renames

variable (h : s.Renames σ t)

include h

theorem lookup (name : String) :
    t.locals.lookup name = (s.locals.lookup name).map (Value.rename σ) := by
  rw [h.locals, lookup_renameLocals]

theorem root (name : String) : t.root name = (s.root name).rename σ := by
  rw [State.root, State.root, h.lookup, h.globals]
  cases s.locals.lookup name <;> rfl

theorem foldlM (hs : s.Contained) {names : List String} {w : Value} (hw : w.Within s.fresh) :
    names.foldlM t.fieldOf (w.rename σ) = (names.foldlM s.fieldOf w).map (Value.rename σ) := by
  induction names generalizing w with
  | nil => rfl
  | cons name names ih =>
      cases w with
      | table a =>
          have ha : a < s.fresh := Value.within_table.mp hw
          have hfield := (h.tables a ha).field name
          rw [List.foldlM_cons, List.foldlM_cons, Value.rename, fieldOf, fieldOf, hfield]
          exact ih ((hs.tables a ha).field name)
      | _ => rfl

/-- **A path** leads to the same place. -/
theorem read (hs : s.Contained) (p : String) : t.read p = (s.read p).map (Value.rename σ) := by
  rw [State.read, State.read, h.root, h.foldlM hs (hs.root _)]

end Renames

/-! ### Local variables -/

theorem Renames.push (h : s.Renames σ t) (name : String) (v : Value) :
    (s.push name v).Renames σ (t.push name (v.rename σ)) :=
  { h with locals := by rw [locals_push, locals_push, renameLocals, h.locals] }

theorem Contained.push (h : s.Contained) (name : String) (hv : v.Within s.fresh) :
    (s.push name v).Contained :=
  { h with locals := List.forall_mem_cons.mpr ⟨hv, h.locals⟩ }

/-! ### Assignments -/

theorem Renames.setField (h : s.Renames σ t) (a : ℕ) (name : String) (v : Value) :
    (s.setField a name v).Renames σ (t.setField (σ a) name (v.rename σ)) where
  injective := h.injective
  fresh := h.fresh
  locals := h.locals
  globals := h.globals
  tables b hb := by
    by_cases hba : b = a
    · subst hba
      simpa [State.setField] using (h.tables b hb).setField name v
    · simpa [State.setField, hba, h.injective.eq_iff] using h.tables b hb
  world := h.world

theorem Contained.setField (h : s.Contained) (a : ℕ) (name : String) (hv : v.Within s.fresh) :
    (s.setField a name v).Contained where
  locals := h.locals
  globals := h.globals
  tables b hb := by
    by_cases hba : b = a
    · subst hba
      simpa [State.setField] using (h.tables b hb).setField name hv
    · simpa [State.setField, hba] using h.tables b hb
  world := h.world

theorem Renames.setRoot (h : s.Renames σ t) (name : String) (v : Value) :
    (s.setRoot name v).Renames σ (t.setRoot name (v.rename σ)) := by
  have hlookup := h.lookup name
  rw [State.setRoot, State.setRoot, hlookup, Option.isSome_map]
  split
  · exact { h with locals := by rw [h.locals, renameLocals_assignLocal] }
  · refine { h with globals := fun x => ?_ }
    by_cases hx : x = name
    · subst hx; simp
    · simp [hx, h.globals]

theorem Contained.setRoot (h : s.Contained) (name : String) (hv : v.Within s.fresh) :
    (s.setRoot name v).Contained := by
  rw [State.setRoot]
  split
  · exact { h with locals := forall_within_assignLocal h.locals hv name }
  · refine { h with globals := fun x => ?_ }
    by_cases hx : x = name
    · subst hx; simpa using hv
    · simpa [hx] using h.globals x

/-- **An assignment** to a path fails in both states, or it changes the same field or the same
variable of both. -/
theorem Renames.write_cases (h : s.Renames σ t) (hs : s.Contained) (p : String) (v : Value) :
    (s.write p v = none ∧ t.write p (v.rename σ) = none) ∨
      (∃ a name, name ∈ (pathFields p).getLast? ∧ s.write p v = some (s.setField a name v) ∧
        t.write p (v.rename σ) = some (t.setField (σ a) name (v.rename σ))) ∨
      ((pathFields p).getLast? = none ∧ s.write p v = some (s.setRoot (pathRoot p) v) ∧
        t.write p (v.rename σ) = some (t.setRoot (pathRoot p) (v.rename σ))) := by
  rw [State.write, State.write]
  cases hlast : (pathFields p).getLast? with
  | none => exact .inr (.inr ⟨rfl, rfl, rfl⟩)
  | some name =>
      have hfold : (pathFields p).dropLast.foldlM t.fieldOf ((s.root (pathRoot p)).rename σ) = _ :=
        h.foldlM hs (hs.root (pathRoot p))
      rw [← h.root] at hfold
      simp only [hfold]
      cases (pathFields p).dropLast.foldlM s.fieldOf (s.root (pathRoot p)) with
      | none => exact .inl ⟨rfl, rfl⟩
      | some w =>
          cases w with
          | table a => exact .inr (.inl ⟨a, name, rfl, rfl, rfl⟩)
          | _ => exact .inl ⟨rfl, rfl⟩

/-! ### New tables -/

theorem Renames.alloc (h : s.Renames σ t) {table table' : Table} (ht : table.Renames σ table') :
    (t.alloc table').1 = (s.alloc table).1.rename σ ∧
      (s.alloc table).2.Renames σ (t.alloc table').2 := by
  have hfresh : σ s.fresh = t.fresh := h.fresh 0
  refine ⟨congrArg Value.table hfresh.symm, h.injective, fun i => ?_, h.locals, h.globals,
    fun a ha => ?_, h.world⟩
  · have hnext := h.fresh (1 + i)
    rwa [← Nat.add_assoc, ← Nat.add_assoc] at hnext
  · by_cases hnew : a = s.fresh
    · subst hnew
      simpa [State.alloc, hfresh] using ht
    · have hold : a < s.fresh := lt_of_le_of_ne (Nat.lt_succ_iff.mp ha) hnew
      have hne : σ a ≠ t.fresh := fun heq => hnew (h.injective (heq.trans hfresh.symm))
      simpa [State.alloc, hnew, hne] using h.tables a hold

theorem Contained.alloc (h : s.Contained) {table : Table} (ht : table.Within s.fresh) :
    (s.alloc table).1.Within (s.alloc table).2.fresh ∧ (s.alloc table).2.Contained := by
  have hfresh : s.fresh ≤ s.fresh + 1 := Nat.le_succ _
  refine ⟨Value.within_table.mpr (Nat.lt_succ_self _), fun p hp => (h.locals p hp).mono hfresh,
    fun name => (h.globals name).mono hfresh, fun a ha => ?_, h.world.mono hfresh⟩
  by_cases hnew : a = s.fresh
  · subst hnew
    simpa [State.alloc] using ht.mono hfresh
  · have hold : a < s.fresh := lt_of_le_of_ne (Nat.lt_succ_iff.mp ha) hnew
    simpa [State.alloc, hnew] using (h.tables a hold).mono hfresh

/-! ### The game -/

theorem Renames.withWorld (h : s.Renames σ t) {w w' : Memory R} (hw : w.Renames σ w') :
    ({ s with world := w } : State (Memory R)).Renames σ { t with world := w' } :=
  { h with world := hw }

/-- **Growth without any other effect** is a renaming: the new tables are left out. -/
theorem Contained.exists_renames (hs : s.Contained) (hgrows : s.Grows t)
    (hworld : t.world.silent = s.world.silent) :
    ∃ σ : ℕ → ℕ, (∀ a < s.fresh, σ a = a) ∧ s.Renames σ t := by
  let σ : ℕ → ℕ := fun a => if a < s.fresh then a else a + (t.fresh - s.fresh)
  have hσ : ∀ a < s.fresh, σ a = a := fun a ha => if_pos ha
  have hfresh := hgrows.fresh
  refine ⟨σ, hσ, fun a b hab => ?_, fun i => ?_, ?_, fun name => ?_, fun a ha => ?_, ?_⟩
  · simp only [σ] at hab
    split at hab <;> split at hab <;> omega
  · simp only [σ]
    split <;> omega
  · rw [hgrows.locals, renameLocals_of_within hs.locals hσ]
  · rw [hgrows.globals, hs.globals name σ hσ]
  · have hitems : (s.tables a).items.map (Value.rename σ) = (s.tables a).items :=
      (List.map_congr_left fun v hv => (hs.tables a ha).items v hv σ hσ).trans (List.map_id _)
    rw [hσ a ha, hgrows.tables a ha]
    exact ⟨fun name => ((hs.tables a ha).field name σ hσ).symm, hitems.symm⟩
  · rw [Memory.Renames, hworld, hs.world σ hσ]

end State

end Lua

end JokerScript
