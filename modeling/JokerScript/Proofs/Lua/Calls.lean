import JokerScript.Proofs.Lua.Laws

/-!
# Calls of the Game

What the game does when one of its functions is called is left to the host. Here stands what a
host may be asked to keep to: that a call does not look at the local variables of its caller,
that it leaves alone what was there before, and that there is a record of it.

A record makes statements about the order and the number of calls: whoever keeps one finds
there, after a run of generated code, just the calls that the run made.

## Main definitions

* `Lua.State.Grows` — nothing that was there has changed.
* `Lua.HostCall`, `Lua.Host.Records` — calls, and hosts with a record of them.
* `Lua.Host.IgnoresLocals` — hosts that do not look at local variables.

## Main results

* `Lua.State.Grows.trans`, `Lua.State.Grows.setField`, `Lua.State.Grows.push` — growth of states.
-/

namespace JokerScript

namespace Lua

variable {W : Type}

/-! ### Growth -/

namespace State

/-- The state with other local variables. -/
def withLocals (s : State W) (locals : List (String × Value)) : State W := { s with locals }

/-- The second state **grows** from the first: there may be new tables, and what the game keeps
beside its tables may differ. -/
structure Grows (s t : State W) : Prop where
  locals : t.locals = s.locals
  globals : t.globals = s.globals
  fresh : s.fresh ≤ t.fresh
  tables : ∀ a < s.fresh, t.tables a = s.tables a

variable {s t u : State W}

/-- A new table is out of the way of the others. -/
theorem grows_alloc (s : State W) (table : Table) : s.Grows (s.alloc table).2 :=
  ⟨rfl, rfl, Nat.le_succ _, fun _ ha => Function.update_of_ne ha.ne _ _⟩

theorem grows_withWorld (s : State W) (w : W) : s.Grows { s with world := w } :=
  ⟨rfl, rfl, le_rfl, fun _ _ => rfl⟩

namespace Grows

theorem refl (s : State W) : s.Grows s := ⟨rfl, rfl, le_rfl, fun _ _ => rfl⟩

theorem trans (h : s.Grows t) (h' : t.Grows u) : s.Grows u where
  locals := h'.locals.trans h.locals
  globals := h'.globals.trans h.globals
  fresh := h.fresh.trans h'.fresh
  tables a ha := (h'.tables a (ha.trans_le h.fresh)).trans (h.tables a ha)

theorem root (h : s.Grows t) (name : String) : t.root name = s.root name := by
  rw [State.root, State.root, h.locals, h.globals]

theorem setField (h : s.Grows t) (a : ℕ) (name : String) (v : Value) :
    (s.setField a name v).Grows (t.setField a name v) := by
  refine ⟨h.locals, h.globals, h.fresh, fun b hb => ?_⟩
  by_cases hba : b = a
  · subst hba
    simp [State.setField, h.tables b hb]
  · simp [State.setField, hba, h.tables b hb]

theorem push (h : s.Grows t) (name : String) (v : Value) :
    (s.push name v).Grows (t.push name v) :=
  ⟨congrArg (List.cons (name, v)) h.locals, h.globals, h.fresh, h.tables⟩

theorem withLocals (h : s.Grows t) (locals : List (String × Value)) :
    (s.withLocals locals).Grows (t.withLocals locals) :=
  ⟨rfl, h.globals, h.fresh, h.tables⟩

/-- What grows from a state with a local variable has the local variable. -/
theorem exists_of_push {name : String} {v : Value} (h : (s.push name v).Grows t) :
    ∃ t', t = t'.push name v ∧ s.Grows t' := by
  refine ⟨t.withLocals s.locals, ?_, rfl, h.globals, h.fresh, h.tables⟩
  have hlocals : t.locals = (name, v) :: s.locals := h.locals
  rw [State.push, State.withLocals, ← hlocals]

end Grows

end State

/-! ### Functions of generated code -/

section Functions

variable {host : Host W} {params : List String} {body : Block}
  {captured : List (String × Value)} {args : List Value} {s t : State W}

/-- The run of a function whose body comes to its end. -/
theorem run_closure_of_next
    (h : execBlock host body ((s.withLocals captured).pushAll params args) = some (.next, t)) :
    (Value.closure params body captured).run host args s =
      some (.nil, t.withLocals s.locals) := by
  have hbody : runBody host body ((s.withLocals captured).pushAll params args) = _ :=
    congrArg (returned _) h
  exact congrArg (Option.map fun o => (o.1, o.2.withLocals s.locals)) hbody

/-- The run of a function whose body returns a value. -/
theorem run_closure_of_ret {v : Value}
    (h : execBlock host body ((s.withLocals captured).pushAll params args) =
      some (.ret v, t)) :
    (Value.closure params body captured).run host args s = some (v, t.withLocals s.locals) := by
  have hbody : runBody host body ((s.withLocals captured).pushAll params args) = _ :=
    congrArg (returned _) h
  exact congrArg (Option.map fun o => (o.1, o.2.withLocals s.locals)) hbody

end Functions

/-! ### Records -/

/-- A **call** of a function or of a method of the game. -/
inductive HostCall where
  | function (name : String) (args : List Value)
  | method (receiver : Value) (name : String) (args : List Value)

namespace Host

/-- The game has a **record** of the calls that it has answered. -/
structure Records (host : Host W) (record : W → List HostCall) : Prop where
  function : ∀ {name args s v t}, host.call name args s = some (v, t) →
    record t.world = record s.world ++ [.function name args]
  method : ∀ {receiver name args s v t}, host.method receiver name args s = some (v, t) →
    record t.world = record s.world ++ [.method receiver name args]

/-- The functions of the game do not look at the local variables of their callers. -/
def IgnoresLocals (host : Host W) : Prop :=
  ∀ {name args s v t}, host.call name args s = some (v, t) → ∀ locals,
    host.call name args (s.withLocals locals) = some (v, t.withLocals locals)

end Host

end Lua

end JokerScript
