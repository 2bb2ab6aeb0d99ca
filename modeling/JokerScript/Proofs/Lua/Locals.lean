import JokerScript.Proofs.Lua.Calls
import JokerScript.Proofs.Lua.Scope
import JokerScript.Proofs.Lua.Uses

/-!
# Local Variables of a Run

Pieces of generated code that stand one after the other share their local variables. A piece can
touch a variable only by its name: it declares a variable of that name, goes through items under
it, or assigns to it. The names that a tree **binds** in one of these ways are collected here, and
a run of the tree leaves all other local variables alone, whatever the game does in between.

A block may hide a variable for a while and let it come up again at its end. So the frame is told
of all variables of a name, from the newest one down, and not only of the one that is visible.

## Main definitions

* `Lua.Expr.bindings`, `Lua.blockBindings` — the names that a tree binds, at any depth.
* `Lua.blockDeclared` — the names that a block declares at its top level.
* `Lua.Expr.roots` — the variables that an expression reads.
* `Lua.State.Spares` — the local variables of a name are as before.
* `Lua.Host.KeepsLocals` — calls of the game do not touch the variables of their callers.

## Main results

* `Lua.execBlock_spares` — a run spares the names that its block does not bind.
-/

namespace JokerScript

namespace Lua

/-! ### Names -/

/-- The variable that an assignment to the target sets. Most targets are fields of tables. -/
def targetBindings : Expr → List String
  | .path p => if (pathFields p).isEmpty then [pathRoot p] else []
  | _ => []

mutual

/-- The names that an expression binds. -/
def Expr.bindings : Expr → List String
  | .nil | .bool _ | .number _ | .str _ | .path _ => []
  | .unary _ e => e.bindings
  | .binary _ l r => l.bindings ++ r.bindings
  | .call callee args => callee.bindings ++ argBindings args
  | .method receiver _ args => receiver.bindings ++ argBindings args
  | .table fields => fieldBindings fields
  | .function params body => params ++ blockBindings body
  | .invoked body => blockBindings body

/-- The names that arguments bind. -/
def argBindings : List Expr → List String
  | [] => []
  | e :: rest => e.bindings ++ argBindings rest

/-- The names that the fields of a table bind. -/
def fieldBindings : List Field → List String
  | [] => []
  | .named _ e :: rest => e.bindings ++ fieldBindings rest
  | .positional e :: rest => e.bindings ++ fieldBindings rest

/-- The names that a statement binds. -/
def Stmt.bindings : Stmt → List String
  | .declare name none => [name]
  | .declare name (some e) => name :: e.bindings
  | .assign target e => targetBindings target ++ e.bindings
  | .run e => e.bindings
  | .branch arms otherwise => armBindings arms ++ elseBindings otherwise
  | .forIn vars iter body => vars ++ (iter.bindings ++ blockBindings body)
  | .ret none => []
  | .ret (some e) => e.bindings
  | .leave => []
  | .define name params body =>
    targetBindings (.path (functionPath name)) ++ (methodParams name params ++ blockBindings body)

/-- The names that the arms of a branch bind. -/
def armBindings : List Arm → List String
  | [] => []
  | .mk condition body :: rest => condition.bindings ++ (blockBindings body ++ armBindings rest)

/-- The names that the last alternative of a branch binds. -/
def elseBindings : Option (List Stmt) → List String
  | none => []
  | some body => blockBindings body

/-- The names that a block binds. -/
def blockBindings : List Stmt → List String
  | [] => []
  | stmt :: rest => stmt.bindings ++ blockBindings rest

end

/-- The names that a block declares at its top level. -/
def blockDeclared (block : Block) : List String := block.flatMap Stmt.declared

/-- The variables that an expression reads: all paths in it begin at these. -/
def Expr.roots (e : Expr) : List String := e.uses.map fun u => pathRoot u.path

theorem mem_roots_of_usesAll {e : Expr} {names : List String}
    (h : e.UsesAll fun u => pathRoot u.path ∈ names) : e.roots ⊆ names := by
  intro x hx
  obtain ⟨u, hu, rfl⟩ := List.mem_map.mp hx
  exact h u hu

/-! ### Constructs -/

section Constructs

namespace Expr

theorem argBindings_eq (args : List Expr) : argBindings args = args.flatMap bindings := by
  induction args with
  | nil => rfl
  | cons e args ih => exact congrArg (e.bindings ++ ·) ih

@[simp] theorem bindings_nil : Expr.nil.bindings = [] := rfl

@[simp] theorem bindings_bool (b : Bool) : (Expr.bool b).bindings = [] := rfl

@[simp] theorem bindings_number (n : Number) : (Expr.number n).bindings = [] := rfl

@[simp] theorem bindings_str (s : String) : (Expr.str s).bindings = [] := rfl

@[simp] theorem bindings_zero : Expr.zero.bindings = [] := rfl

@[simp] theorem bindings_one : Expr.one.bindings = [] := rfl

@[simp] theorem bindings_path (p : String) : (Expr.path p).bindings = [] := rfl

@[simp] theorem bindings_extra (name : String) : (Expr.extra name).bindings = [] := rfl

@[simp] theorem bindings_unary (op : UnaryOp) (e : Expr) :
    (unary op e).bindings = e.bindings := rfl

@[simp] theorem bindings_binary (op : BinaryOp) (l r : Expr) :
    (binary op l r).bindings = l.bindings ++ r.bindings := rfl

@[simp] theorem bindings_apply (callee : String) (args : List Expr) :
    (apply callee args).bindings = args.flatMap bindings :=
  argBindings_eq args

@[simp] theorem bindings_method (receiver : Expr) (name : String) (args : List Expr) :
    (method receiver name args).bindings = receiver.bindings ++ args.flatMap bindings :=
  congrArg (receiver.bindings ++ ·) (argBindings_eq args)

@[simp] theorem bindings_record (fields : List (String × Expr)) :
    (record fields).bindings = fields.flatMap fun field => field.2.bindings := by
  induction fields with
  | nil => rfl
  | cons field fields ih => exact congrArg (field.2.bindings ++ ·) ih

@[simp] theorem bindings_table_nil : (table []).bindings = [] := rfl

@[simp] theorem bindings_concat (es : List Expr) :
    (concat es).bindings = es.flatMap bindings := by
  induction es with
  | nil => rfl
  | cons first es ih =>
      cases es with
      | nil => exact (List.append_nil _).symm
      | cons second es => exact congrArg (first.bindings ++ ·) ih

@[simp] theorem bindings_thunk (body : Block) : (thunk body).bindings = blockBindings body := rfl

end Expr

@[simp] theorem blockBindings_nil : blockBindings [] = [] := rfl

@[simp] theorem blockBindings_cons (stmt : Stmt) (rest : Block) :
    blockBindings (stmt :: rest) = stmt.bindings ++ blockBindings rest := rfl

theorem blockBindings_eq (block : Block) : blockBindings block = block.flatMap Stmt.bindings := by
  induction block with
  | nil => rfl
  | cons stmt block ih => exact congrArg (stmt.bindings ++ ·) ih

@[simp] theorem blockBindings_append (first second : Block) :
    blockBindings (first ++ second) = blockBindings first ++ blockBindings second := by
  rw [blockBindings_eq, blockBindings_eq, blockBindings_eq, List.flatMap_append]

namespace Stmt

@[simp] theorem bindings_letLocal (name : String) (e : Expr) :
    (letLocal name e).bindings = name :: e.bindings := rfl

@[simp] theorem bindings_set (target : String) (e : Expr) :
    (set target e).bindings = targetBindings (.path target) ++ e.bindings := rfl

@[simp] theorem bindings_run (e : Expr) : (run e).bindings = e.bindings := rfl

@[simp] theorem bindings_call (callee : String) (args : List Expr) :
    (call callee args).bindings = args.flatMap Expr.bindings :=
  Expr.bindings_apply callee args

@[simp] theorem bindings_ifThen (condition : Expr) (body : Block) :
    (ifThen condition body).bindings = condition.bindings ++ blockBindings body := by
  change condition.bindings ++ (blockBindings body ++ []) ++ [] = _
  rw [List.append_nil, List.append_nil]

@[simp] theorem bindings_returning (e : Expr) : (returning e).bindings = e.bindings := rfl

@[simp] theorem bindings_forItems (index value : String) (source : Expr) (body : Block) :
    (forItems index value source body).bindings =
      index :: value :: (source.bindings ++ blockBindings body) := by
  change index :: value :: ((Expr.apply "ipairs" [source]).bindings ++ blockBindings body) = _
  simp

/-- What a statement declares for the rest of its block, it binds. -/
theorem declared_subset_bindings (stmt : Stmt) : stmt.declared ⊆ stmt.bindings := by
  cases stmt with
  | declare name value => cases value <;> simp [declared, bindings]
  | _ => exact List.nil_subset _

end Stmt

theorem blockDeclared_append (first second : Block) :
    blockDeclared (first ++ second) = blockDeclared first ++ blockDeclared second :=
  List.flatMap_append

/-- What a block declares at its top level, it binds. -/
theorem blockDeclared_subset (block : Block) : blockDeclared block ⊆ blockBindings block := by
  intro name hname
  obtain ⟨stmt, hstmt, hname⟩ := List.mem_flatMap.mp hname
  rw [blockBindings_eq]
  exact List.mem_flatMap.mpr ⟨stmt, hstmt, stmt.declared_subset_bindings hname⟩

end Constructs

/-! ### Spared variables -/

variable {W : Type} {host : Host W} {x : String} {s t u : State W} {v : Value} {flow : Flow}

namespace State

/-- From the first state to the second one the local variables called `x` are **spared**: there
may be more variables of other names, but all variables of this name are there as before, the
visible one and those that it hides. -/
structure Spares (x : String) (s t : State W) : Prop where
  length_le : s.locals.length ≤ t.locals.length
  lookup : t.locals.lookup x = s.locals.lookup x
  below : ∀ n ≤ s.locals.length, (t.close n).locals.lookup x = (s.close n).locals.lookup x

namespace Spares

theorem of_locals (h : t.locals = s.locals) : s.Spares x t := by
  refine ⟨le_of_eq (by rw [h]), by rw [h], fun n _ => ?_⟩
  rw [close, close, h]

theorem refl (x : String) (s : State W) : s.Spares x s := of_locals rfl

theorem trans (h : s.Spares x t) (h' : t.Spares x u) : s.Spares x u where
  length_le := h.length_le.trans h'.length_le
  lookup := h'.lookup.trans h.lookup
  below n hn := (h'.below n (hn.trans h.length_le)).trans (h.below n hn)

theorem push (h : s.Spares x t) {name : String} (hname : x ≠ name) (v : Value) :
    s.Spares x (t.push name v) where
  length_le := h.length_le.trans (Nat.le_succ _)
  lookup := (t.lookup_push_of_ne v hname).trans h.lookup
  below n hn := by rw [t.close_push name v (hn.trans h.length_le), h.below n hn]

theorem pushAll (h : s.Spares x t) {names : List String} (hnames : x ∉ names) (vs : List Value) :
    s.Spares x (t.pushAll names vs) := by
  induction names generalizing t vs with
  | nil => exact h
  | cons name names ih =>
      rw [List.mem_cons, not_or] at hnames
      exact ih (h.push hnames.1 _) hnames.2 vs.tail

/-- At the end of a block, the variables from before it are spared. -/
theorem close (h : s.Spares x t) : s.Spares x (t.close s.locals.length) := by
  have hlength : (t.close s.locals.length).locals.length = s.locals.length := by
    have := h.length_le
    rw [State.close, List.length_drop]
    omega
  refine ⟨hlength.ge, ?_, fun n hn => ?_⟩
  · rw [h.below _ le_rfl, close_length]
  · have hclose : (t.close s.locals.length).close n = t.close n := by
      have := h.length_le
      rw [State.close, hlength, State.close, State.close, List.drop_drop]
      congr 2
      omega
    rw [hclose, h.below n hn]

end Spares

theorem lookup_drop_assignLocal {name : String} (hx : x ≠ name) (v : Value) (k : ℕ)
    (locals : List (String × Value)) :
    ((assignLocal name v locals).drop k).lookup x = (locals.drop k).lookup x := by
  induction locals generalizing k with
  | nil => rfl
  | cons p rest ih =>
      cases k with
      | zero => exact lookup_assignLocal_of_ne hx v (p :: rest)
      | succ k =>
          rw [assignLocal]
          split
          · rfl
          · exact ih k

/-- An assignment spares the variables of other names. -/
theorem spares_setRoot (s : State W) {name : String} (hx : x ≠ name) (v : Value) :
    s.Spares x (s.setRoot name v) := by
  refine ⟨(s.length_setRoot name v).ge, s.lookup_setRoot_of_ne hx v, fun n _ => ?_⟩
  rw [close, s.length_setRoot, setRoot]
  split
  · exact lookup_drop_assignLocal hx v _ s.locals
  · rfl

theorem spares_write {p : String} (hx : x ∉ targetBindings (.path p))
    (h : s.write p v = some t) : s.Spares x t := by
  rw [write] at h
  split at h
  · rename_i hfields
    obtain rfl := Option.some.inj h
    refine s.spares_setRoot (fun heq => hx ?_) v
    rw [targetBindings, List.getLast?_eq_none_iff.mp hfields, heq]
    exact List.mem_singleton_self _
  · split at h
    · obtain rfl := Option.some.inj h
      exact .of_locals rfl
    · cases h

end State

/-! ### Runs -/

/-- Calls of the game **keep** the local variables of their callers. -/
structure Host.KeepsLocals (host : Host W) : Prop where
  call : ∀ {name args s v t}, host.call name args s = some (v, t) → t.locals = s.locals
  method : ∀ {receiver name args s v t}, host.method receiver name args s = some (v, t) →
    t.locals = s.locals

/-- Neither do the functions of the library touch them. -/
theorem locals_of_library? {name : String} {args : List Value} {result : Option (Value × State W)}
    (hlibrary : library? name args s = some result) (h : result = some (v, t)) :
    t.locals = s.locals := by
  subst h
  unfold library? at hlibrary
  split at hlibrary <;> cases hlibrary <;> rfl

theorem Host.KeepsLocals.apply (hhost : host.KeepsLocals) {name : String} {args : List Value}
    (h : host.apply name args s = some (v, t)) : t.locals = s.locals := by
  rw [Host.apply] at h
  cases hlibrary : library? name args s with
  | none =>
      rw [hlibrary] at h
      exact hhost.call h
  | some result =>
      rw [hlibrary] at h
      exact locals_of_library? hlibrary h

theorem spares_of_closeBlock {outcome : Option (Flow × State W)}
    (hbody : ∀ {flow t}, outcome = some (flow, t) → s.Spares x t)
    (h : closeBlock s.locals.length outcome = some (flow, u)) : s.Spares x u := by
  obtain ⟨⟨flow', t⟩, ht, heq⟩ := Option.map_eq_some_iff.mp h
  obtain ⟨-, rfl⟩ := Prod.mk.inj heq
  exact (hbody ht).close

/-- A loop spares what its body spares. -/
theorem runLoop_spares {body : State W → Option (Flow × State W)} {vars : List String}
    (hvars : x ∉ vars)
    (hbody : ∀ {s t : State W} {flow : Flow}, body s = some (flow, t) → s.Spares x t)
    (items : List (Value × Value)) {s t : State W} {flow : Flow}
    (h : runLoop body vars items s = some (flow, t)) : s.Spares x t := by
  induction items generalizing s with
  | nil =>
      obtain ⟨-, rfl⟩ := Prod.mk.inj (Option.some.inj h)
      exact .refl x s
  | cons item items ih =>
      obtain ⟨key, value⟩ := item
      have hturn : ∀ {flow u}, closeBlock s.locals.length (body (s.pushAll vars [key, value])) =
          some (flow, u) → s.Spares x u :=
        spares_of_closeBlock fun hrun =>
          ((State.Spares.refl x s).pushAll hvars _).trans (hbody hrun)
      rw [runLoop] at h
      split at h
      · rename_i u hu
        exact (hturn hu).trans (ih h)
      · rename_i u hu
        obtain ⟨-, rfl⟩ := Prod.mk.inj (Option.some.inj h)
        exact hturn hu
      · exact hturn h

mutual

theorem Expr.spares (hhost : host.KeepsLocals) : ∀ (e : Expr) {s t : State W} {v : Value},
    x ∉ e.bindings → e.eval host s = some (v, t) → s.Spares x t
  | .nil, s, t, v, _, h | .bool _, s, t, v, _, h | .number _, s, t, v, _, h
  | .str _, s, t, v, _, h | .function .., s, t, v, _, h => by
    obtain ⟨-, rfl⟩ := Prod.mk.inj (Option.some.inj h)
    exact .refl x s
  | .path p, s, t, v, _, h => by
    obtain ⟨w, -, heq⟩ := Option.map_eq_some_iff.mp h
    obtain ⟨-, rfl⟩ := Prod.mk.inj heq
    exact .refl x s
  | .unary op e, s, t, v, hx, h => by
    simp only [Expr.eval, bind, pure, Option.bind_eq_some_iff, Prod.exists, Option.some.injEq,
      Prod.mk.injEq] at h
    obtain ⟨a, u, he, r, -, -, rfl⟩ := h
    exact e.spares hhost hx he
  | .binary op l r, s, t, v, hx, h => by
    rw [Expr.bindings, List.mem_append, not_or] at hx
    simp only [Expr.eval, bind, pure, Option.bind_eq_some_iff, Prod.exists] at h
    obtain ⟨a, u, hl, h⟩ := h
    have hfirst := l.spares hhost hx.1 hl
    split at h
    · obtain ⟨-, rfl⟩ := Prod.mk.inj (Option.some.inj h)
      exact hfirst
    · simp only [Option.bind_eq_some_iff, Prod.exists, Option.some.injEq, Prod.mk.injEq] at h
      obtain ⟨b, u', hr, w, -, -, rfl⟩ := h
      exact hfirst.trans (r.spares hhost hx.2 hr)
  | .call callee args, s, t, v, hx, h => by
    rw [Expr.bindings, List.mem_append, not_or] at hx
    simp only [Expr.eval, bind, Option.bind_eq_some_iff, Prod.exists] at h
    obtain ⟨name, -, vs, u, hargs, hcall⟩ := h
    exact (evalArgs_spares hhost args hx.2 hargs).trans (.of_locals (hhost.apply hcall))
  | .method receiver name args, s, t, v, hx, h => by
    rw [Expr.bindings, List.mem_append, not_or] at hx
    simp only [Expr.eval, bind, Option.bind_eq_some_iff, Prod.exists] at h
    obtain ⟨a, u, hreceiver, vs, u', hargs, hcall⟩ := h
    exact ((receiver.spares hhost hx.1 hreceiver).trans
      (evalArgs_spares hhost args hx.2 hargs)).trans (.of_locals (hhost.method hcall))
  | .table fields, s, t, v, hx, h => by
    simp only [Expr.eval, bind, pure, Option.bind_eq_some_iff, Prod.exists, Option.some.injEq] at h
    obtain ⟨table, u, hfields, heq⟩ := h
    obtain ⟨-, rfl⟩ := Prod.mk.inj heq
    exact (evalFields_spares hhost fields hx hfields).trans (.of_locals rfl)
  | .invoked body, s, t, v, hx, h => by
    have hbody : ∀ {flow u}, execBlock host body s = some (flow, u) → s.Spares x u :=
      fun hrun => execBlock_spares hhost body hx hrun
    rw [Expr.eval] at h
    cases hrun : execBlock host body s with
    | none =>
        rw [hrun] at h
        cases h
    | some outcome =>
        obtain ⟨flow, u⟩ := outcome
        rw [hrun] at h
        cases flow with
        | leave => cases h
        | next | ret =>
            obtain ⟨-, rfl⟩ := Prod.mk.inj (Option.some.inj h)
            exact (hbody hrun).close

theorem evalArgs_spares (hhost : host.KeepsLocals) :
    ∀ (args : List Expr) {s t : State W} {vs : List Value},
      x ∉ argBindings args → evalArgs host args s = some (vs, t) → s.Spares x t
  | [], s, t, vs, _, h => by
    obtain ⟨-, rfl⟩ := Prod.mk.inj (Option.some.inj h)
    exact .refl x s
  | e :: rest, s, t, vs, hx, h => by
    rw [argBindings, List.mem_append, not_or] at hx
    simp only [evalArgs, bind, pure, Option.bind_eq_some_iff, Prod.exists, Option.some.injEq,
      Prod.mk.injEq] at h
    obtain ⟨v, u, he, ws, u', hrest, -, rfl⟩ := h
    exact (e.spares hhost hx.1 he).trans (evalArgs_spares hhost rest hx.2 hrest)

theorem evalFields_spares (hhost : host.KeepsLocals) :
    ∀ (fields : List Field) {s t : State W} {table : Table},
      x ∉ fieldBindings fields → evalFields host fields s = some (table, t) → s.Spares x t
  | [], s, t, table, _, h => by
    obtain ⟨-, rfl⟩ := Prod.mk.inj (Option.some.inj h)
    exact .refl x s
  | .named name e :: rest, s, t, table, hx, h => by
    rw [fieldBindings, List.mem_append, not_or] at hx
    simp only [evalFields, bind, pure, Option.bind_eq_some_iff, Prod.exists, Option.some.injEq,
      Prod.mk.injEq] at h
    obtain ⟨v, u, he, table', u', hrest, -, rfl⟩ := h
    exact (e.spares hhost hx.1 he).trans (evalFields_spares hhost rest hx.2 hrest)
  | .positional e :: rest, s, t, table, hx, h => by
    rw [fieldBindings, List.mem_append, not_or] at hx
    simp only [evalFields, bind, pure, Option.bind_eq_some_iff, Prod.exists, Option.some.injEq,
      Prod.mk.injEq] at h
    obtain ⟨v, u, he, table', u', hrest, -, rfl⟩ := h
    exact (e.spares hhost hx.1 he).trans (evalFields_spares hhost rest hx.2 hrest)

theorem Stmt.spares (hhost : host.KeepsLocals) :
    ∀ (stmt : Stmt) {s t : State W} {flow : Flow},
      x ∉ stmt.bindings → stmt.exec host s = some (flow, t) → s.Spares x t
  | .declare name none, s, t, flow, hx, h => by
    obtain ⟨-, rfl⟩ := Prod.mk.inj (Option.some.inj h)
    exact (State.Spares.refl x s).push (List.ne_of_not_mem_cons hx) .nil
  | .declare name (some e), s, t, flow, hx, h => by
    rw [Stmt.bindings, List.mem_cons, not_or] at hx
    simp only [Stmt.exec, bind, pure, Option.bind_eq_some_iff, Prod.exists, Option.some.injEq,
      Prod.mk.injEq] at h
    obtain ⟨v, u, he, -, rfl⟩ := h
    exact (e.spares hhost hx.2 he).push hx.1 v
  | .assign target e, s, t, flow, hx, h => by
    rw [Stmt.bindings, List.mem_append, not_or] at hx
    cases target with
    | path p =>
        simp only [Stmt.exec, bind, pure, Option.bind_eq_some_iff, Prod.exists, Option.some.injEq,
          Prod.mk.injEq] at h
        obtain ⟨v, u, he, w, hwrite, -, rfl⟩ := h
        exact (e.spares hhost hx.2 he).trans (State.spares_write hx.1 hwrite)
    | _ => cases h
  | .run e, s, t, flow, hx, h => by
    simp only [Stmt.exec, bind, pure, Option.bind_eq_some_iff, Prod.exists, Option.some.injEq,
      Prod.mk.injEq] at h
    obtain ⟨v, u, he, -, rfl⟩ := h
    exact e.spares hhost hx he
  | .branch arms otherwise, s, t, flow, hx, h => by
    rw [Stmt.bindings, List.mem_append, not_or] at hx
    exact execArms_spares hhost arms hx.1 (fun hrun => execElse_spares hhost otherwise hx.2 hrun) h
  | .forIn vars iter body, s, t, flow, hx, h => by
    rw [Stmt.bindings, List.mem_append, List.mem_append, not_or, not_or] at hx
    simp only [Stmt.exec, bind, Option.bind_eq_some_iff, Prod.exists] at h
    obtain ⟨v, u, hiter, h⟩ := h
    have hfirst := iter.spares hhost hx.2.1 hiter
    split at h
    · exact hfirst.trans (runLoop_spares hx.1
        (fun hrun => execBlock_spares hhost body hx.2.2 hrun) _ h)
    · cases h
  | .ret none, s, t, flow, _, h | .leave, s, t, flow, _, h => by
    obtain ⟨-, rfl⟩ := Prod.mk.inj (Option.some.inj h)
    exact .refl x s
  | .ret (some e), s, t, flow, hx, h => by
    simp only [Stmt.exec, bind, pure, Option.bind_eq_some_iff, Prod.exists, Option.some.injEq,
      Prod.mk.injEq] at h
    obtain ⟨v, u, he, -, rfl⟩ := h
    exact e.spares hhost hx he
  | .define name params body, s, t, flow, hx, h => by
    rw [Stmt.bindings, List.mem_append, not_or] at hx
    simp only [Stmt.exec, bind, pure, Option.bind_eq_some_iff, Option.some.injEq,
      Prod.mk.injEq] at h
    obtain ⟨u, hwrite, -, rfl⟩ := h
    exact State.spares_write hx.1 hwrite

theorem execArms_spares (hhost : host.KeepsLocals) :
    ∀ (arms : List Arm) {otherwise : State W → Option (Flow × State W)} {s t : State W}
      {flow : Flow}, x ∉ armBindings arms →
      (∀ {s t : State W} {flow : Flow}, otherwise s = some (flow, t) → s.Spares x t) →
      execArms host arms otherwise s = some (flow, t) → s.Spares x t
  | [], otherwise, s, t, flow, _, hother, h => hother h
  | .mk condition body :: rest, otherwise, s, t, flow, hx, hother, h => by
    rw [armBindings, List.mem_append, List.mem_append, not_or, not_or] at hx
    simp only [execArms, bind, Option.bind_eq_some_iff, Prod.exists] at h
    obtain ⟨v, u, hcondition, h⟩ := h
    refine (condition.spares hhost hx.1 hcondition).trans ?_
    split at h
    · exact spares_of_closeBlock (fun hrun => execBlock_spares hhost body hx.2.1 hrun) h
    · exact execArms_spares hhost rest hx.2.2 hother h

theorem execElse_spares (hhost : host.KeepsLocals) :
    ∀ (otherwise : Option (List Stmt)) {s t : State W} {flow : Flow},
      x ∉ elseBindings otherwise → execElse host otherwise s = some (flow, t) → s.Spares x t
  | none, s, t, flow, _, h => by
    obtain ⟨-, rfl⟩ := Prod.mk.inj (Option.some.inj h)
    exact .refl x s
  | some body, s, t, flow, hx, h =>
    spares_of_closeBlock (fun hrun => execBlock_spares hhost body hx hrun) h

/-- **A run spares the names that its block does not bind.** -/
theorem execBlock_spares (hhost : host.KeepsLocals) :
    ∀ (block : Block) {s t : State W} {flow : Flow},
      x ∉ blockBindings block → execBlock host block s = some (flow, t) → s.Spares x t
  | [], s, t, flow, _, h => by
    obtain ⟨-, rfl⟩ := Prod.mk.inj (Option.some.inj h)
    exact .refl x s
  | stmt :: rest, s, t, flow, hx, h => by
    rw [blockBindings, List.mem_append, not_or] at hx
    rw [execBlock] at h
    cases hstmt : stmt.exec host s with
    | none =>
        rw [hstmt] at h
        cases h
    | some outcome =>
        obtain ⟨flow', u⟩ := outcome
        have hfirst := stmt.spares hhost hx.1 hstmt
        rw [hstmt] at h
        cases flow' with
        | next => exact hfirst.trans (execBlock_spares hhost rest hx.2 h)
        | leave | ret =>
            obtain ⟨-, rfl⟩ := Prod.mk.inj (Option.some.inj h)
            exact hfirst

end

end Lua

end JokerScript
