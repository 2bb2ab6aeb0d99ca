import JokerScript.Proofs.Lua.Run

/-!
# Laws of Running Code

One law for each way of building code, so that proofs about generated code do not open the
semantics. A law takes the runs of the parts and gives the run of the whole.

An expression **decides** a proposition in a state if its evaluation succeeds, changes
nothing, and is truthy exactly if the proposition holds. Deciding expressions combine by the
connectives of Lua as propositions do.

## Main definitions

* `Lua.Decides` — an expression decides a proposition.

## Main results

* `Lua.Decides.and`, `Lua.Decides.or`, `Lua.Decides.negation`, `Lua.Decides.allOf`,
  `Lua.Decides.anyOf` — deciding by parts.
* `Lua.runLoop_of_next`, `Lua.runLoop_of_leave` — one turn of a loop.
-/

namespace JokerScript

namespace Lua

variable {W : Type} {host : Host W}

/-! ### Expressions -/

/-- An operator that evaluates both operands. -/
theorem eval_binary_eq {op : BinaryOp} (hop : op ≠ .and ∧ op ≠ .or) (l r : Expr) (s : State W) :
    (Expr.binary op l r).eval host s = (l.eval host s).bind fun o =>
      (r.eval host o.2).bind fun o' => (op.apply o.1 o'.1).map fun v => (v, o'.2) := by
  have hshort : ∀ a, op.shortcut? a = none := by
    intro a
    cases op <;> first | rfl | simp at hop
  have hfinish : ∀ a b, op.finish a b = op.apply a b := by
    intro a b
    cases op <;> first | rfl | simp at hop
  rw [Expr.eval]
  simp only [hshort, hfinish, Option.map_eq_bind]
  rfl

theorem eval_binary {op : BinaryOp} {l r : Expr} {s t u : State W} {a b v : Value}
    (hop : op ≠ .and ∧ op ≠ .or) (hl : l.eval host s = some (a, t))
    (hr : r.eval host t = some (b, u)) (hv : op.apply a b = some v) :
    (Expr.binary op l r).eval host s = some (v, u) := by
  simp [eval_binary_eq hop, hl, hr, hv]

theorem eval_unary {op : UnaryOp} {e : Expr} {s t : State W} {a v : Value}
    (he : e.eval host s = some (a, t)) (hv : op.apply t a = some v) :
    (Expr.unary op e).eval host s = some (v, t) := by
  calc (Expr.unary op e).eval host s
      = (e.eval host s).bind fun o => (op.apply o.2 o.1).bind fun r => some (r, o.2) := rfl
    _ = some (v, t) := by simp [he, hv]

theorem eval_and {l r : Expr} {s t : State W} {a : Value} (hl : l.eval host s = some (a, t)) :
    (l.and r).eval host s = if a.truthy then r.eval host t else some (a, t) := by
  rw [Expr.and, Expr.eval, hl]
  cases ha : a.truthy with
  | false => simp [BinaryOp.shortcut?, ha]
  | true => cases hr : r.eval host t <;> simp [BinaryOp.shortcut?, BinaryOp.finish, ha, hr]

theorem eval_or {l r : Expr} {s t : State W} {a : Value} (hl : l.eval host s = some (a, t)) :
    (l.or r).eval host s = if a.truthy then some (a, t) else r.eval host t := by
  rw [Expr.or, Expr.eval, hl]
  cases ha : a.truthy with
  | true => simp [BinaryOp.shortcut?, ha]
  | false => cases hr : r.eval host t <;> simp [BinaryOp.shortcut?, BinaryOp.finish, ha, hr]

theorem eval_path {p : String} {s : State W} {v : Value} (h : s.read p = some v) :
    (Expr.path p).eval host s = some (v, s) :=
  congrArg (Option.map fun v => (v, s)) h

@[simp] theorem eval_str (t : String) (s : State W) :
    (Expr.str t).eval host s = some (.str t, s) := rfl

@[simp] theorem eval_bool (b : Bool) (s : State W) :
    (Expr.bool b).eval host s = some (.bool b, s) := rfl

@[simp] theorem eval_number (n : Number) (s : State W) :
    (Expr.number n).eval host s = some (.number n.literalValue, s) := rfl

@[simp] theorem evalArgs_nil (s : State W) : evalArgs host [] s = some ([], s) := rfl

theorem evalArgs_cons {e : Expr} {rest : List Expr} {s t u : State W} {v : Value}
    {vs : List Value} (he : e.eval host s = some (v, t))
    (hrest : evalArgs host rest t = some (vs, u)) :
    evalArgs host (e :: rest) s = some (v :: vs, u) := by
  calc evalArgs host (e :: rest) s
      = (e.eval host s).bind fun o =>
          (evalArgs host rest o.2).bind fun os => some (o.1 :: os.1, os.2) := rfl
    _ = some (v :: vs, u) := by simp [he, hrest]

/-- Arguments that are read where they stand. -/
theorem evalArgs_paths {names : List String} {s : State W} {vs : List Value}
    (h : List.Forall₂ (fun name v => s.read name = some v) names vs) :
    evalArgs host (names.map .path) s = some (vs, s) := by
  induction h with
  | nil => rfl
  | cons hread _ ih => exact evalArgs_cons (eval_path hread) ih

/-- A call of a function by a name that no local variable hides. -/
theorem eval_apply_eq {name : String} (args : List Expr) {s : State W}
    (hname : s.locals.lookup (pathRoot name) = none) :
    (Expr.apply name args).eval host s =
      (evalArgs host args s).bind fun os => host.apply name os.1 os.2 := by
  have hcallee : s.callee? (.path name) = some name := by simp [State.callee?, hname]
  calc (Expr.apply name args).eval host s
      = (s.callee? (.path name)).bind fun name =>
          (evalArgs host args s).bind fun os => host.apply name os.1 os.2 := rfl
    _ = _ := by rw [hcallee, Option.bind_some]

theorem eval_apply {name : String} {args : List Expr} {s t : State W} {vs : List Value}
    (hname : s.locals.lookup (pathRoot name) = none)
    (hargs : evalArgs host args s = some (vs, t)) :
    (Expr.apply name args).eval host s = host.apply name vs t := by
  rw [eval_apply_eq args hname, hargs, Option.bind_some]

/-- A call of a function that stands in no table. -/
theorem eval_apply_dotFree {name : String} {args : List Expr} {s t : State W} {vs : List Value}
    (hdot : DotFree name) (hname : s.locals.lookup name = none)
    (hargs : evalArgs host args s = some (vs, t)) :
    (Expr.apply name args).eval host s = host.apply name vs t := by
  have hroot : s.locals.lookup (pathRoot name) = none := by rwa [pathRoot_of_dotFree hdot]
  exact eval_apply hroot hargs

/-- A call of the function of the game that a local variable holds. -/
theorem eval_apply_local {name callee : String} {args : List Expr} {s t : State W}
    {vs : List Value} (hname : (s.locals.lookup (pathRoot name)).isSome)
    (hcallee : s.read name = some (.native callee))
    (hargs : evalArgs host args s = some (vs, t)) :
    (Expr.apply name args).eval host s = host.apply callee vs t := by
  have hfunction : s.callee? (.path name) = some callee := by
    simp [State.callee?, hname, hcallee]
  calc (Expr.apply name args).eval host s
      = (s.callee? (.path name)).bind fun name =>
          (evalArgs host args s).bind fun os => host.apply name os.1 os.2 := rfl
    _ = host.apply callee vs t := by rw [hfunction, Option.bind_some, hargs, Option.bind_some]

section Library

variable {l r : Expr} {a b : ExactNumber} {s t u : State W}

/-- The greater of two numbers. -/
theorem eval_max (hname : s.locals.lookup "math" = none)
    (hl : l.eval host s = some (.number a, t)) (hr : r.eval host t = some (.number b, u)) :
    (Expr.apply "math.max" [l, r]).eval host s = some (.number (a.max b), u) := by
  have hroot : pathRoot "math.max" = "math" := by decide
  rw [eval_apply (hroot ▸ hname) (evalArgs_cons hl (evalArgs_cons hr (evalArgs_nil u)))]
  rfl

/-- A number rounded down. -/
theorem eval_floor (hname : s.locals.lookup "math" = none)
    (hl : l.eval host s = some (.number a, t)) :
    (Expr.apply "math.floor" [l]).eval host s = some (.number a.floor, t) := by
  have hroot : pathRoot "math.floor" = "math" := by decide
  rw [eval_apply (hroot ▸ hname) (evalArgs_cons hl (evalArgs_nil t))]
  rfl

end Library

theorem eval_method {receiver : Expr} {name : String} {args : List Expr} {s t u : State W}
    {v : Value} {vs : List Value} (hreceiver : receiver.eval host s = some (v, t))
    (hargs : evalArgs host args t = some (vs, u)) :
    (Expr.method receiver name args).eval host s = host.method v name vs u := by
  calc (Expr.method receiver name args).eval host s
      = (receiver.eval host s).bind fun o =>
          (evalArgs host args o.2).bind fun os => host.method o.1 name os.1 os.2 := rfl
    _ = host.method v name vs u := by simp [hreceiver, hargs]

theorem exec_letLocal {name : String} {e : Expr} {s t : State W} {v : Value}
    (h : e.eval host s = some (v, t)) :
    (Stmt.letLocal name e).exec host s = some (.next, t.push name v) := by
  calc (Stmt.letLocal name e).exec host s
      = (e.eval host s).bind fun o => some (.next, o.2.push name o.1) := rfl
    _ = some (.next, t.push name v) := by rw [h, Option.bind_some]

theorem exec_set {p : String} {e : Expr} {s t u : State W} {v : Value}
    (h : e.eval host s = some (v, t)) (hw : t.write p v = some u) :
    (Stmt.set p e).exec host s = some (.next, u) := by
  calc (Stmt.set p e).exec host s
      = (e.eval host s).bind fun o => (o.2.write p o.1).bind fun s => some (.next, s) := rfl
    _ = some (.next, u) := by simp [h, hw]

/-- A function that is defined under a path captures the local variables. -/
theorem exec_define {name : String} {params : List String} {body : Block} {s t : State W}
    (h : s.write (functionPath name) (.closure (methodParams name params) body s.locals) =
      some t) :
    (Stmt.define name params body).exec host s = some (.next, t) := by
  calc (Stmt.define name params body).exec host s
      = (s.write (functionPath name)
          (.closure (methodParams name params) body s.locals)).bind fun s => some (.next, s) := rfl
    _ = some (.next, t) := by rw [h, Option.bind_some]

theorem exec_run {e : Expr} {s t : State W} {v : Value} (h : e.eval host s = some (v, t)) :
    (Stmt.run e).exec host s = some (.next, t) := by
  calc (Stmt.run e).exec host s
      = (e.eval host s).bind fun o => some (.next, o.2) := rfl
    _ = some (.next, t) := by rw [h, Option.bind_some]

theorem exec_returning {e : Expr} {s t : State W} {v : Value}
    (h : e.eval host s = some (v, t)) :
    (Stmt.returning e).exec host s = some (.ret v, t) := by
  calc (Stmt.returning e).exec host s
      = (e.eval host s).bind fun o => some (.ret o.1, o.2) := rfl
    _ = some (.ret v, t) := by rw [h, Option.bind_some]

theorem exec_ifThen {condition : Expr} (body : Block) {s t : State W} {v : Value}
    (h : condition.eval host s = some (v, t)) :
    (Stmt.ifThen condition body).exec host s =
      if v.truthy then closeBlock t.locals.length (execBlock host body t)
      else some (.next, t) := by
  calc (Stmt.ifThen condition body).exec host s
      = (condition.eval host s).bind fun o =>
          if o.1.truthy then closeBlock o.2.locals.length (execBlock host body o.2)
          else some (.next, o.2) := rfl
    _ = _ := by rw [h, Option.bind_some]

theorem execBlock_cons_of_next {stmt : Stmt} {rest : Block} {s t : State W}
    (h : stmt.exec host s = some (.next, t)) :
    execBlock host (stmt :: rest) s = execBlock host rest t :=
  congrArg (andThen · (execBlock host rest)) h

theorem execBlock_cons_of_ret {stmt : Stmt} {rest : Block} {s t : State W} {v : Value}
    (h : stmt.exec host s = some (.ret v, t)) :
    execBlock host (stmt :: rest) s = some (.ret v, t) :=
  congrArg (andThen · (execBlock host rest)) h

/-- The run of a block with one statement. -/
theorem execBlock_singleton (stmt : Stmt) (s : State W) :
    execBlock host [stmt] s = stmt.exec host s := by
  have h : execBlock host [stmt] s = andThen (stmt.exec host s) (execBlock host []) := rfl
  rcases hstmt : stmt.exec host s with _ | ⟨_ | _ | _, t⟩ <;> rw [h, hstmt] <;> rfl

theorem execBlock_append (first second : Block) (s : State W) :
    execBlock host (first ++ second) s =
      andThen (execBlock host first s) (execBlock host second) := by
  induction first generalizing s with
  | nil => rfl
  | cons stmt first ih =>
      have hcons : ∀ rest, execBlock host (stmt :: rest) s =
          andThen (stmt.exec host s) (execBlock host rest) := fun _ => rfl
      rw [List.cons_append, hcons, hcons]
      rcases stmt.exec host s with _ | ⟨_ | _ | _, u⟩
      case some.next => exact ih u
      all_goals rfl

theorem execBlock_append_of_next {first second : Block} {s t : State W}
    (h : execBlock host first s = some (.next, t)) :
    execBlock host (first ++ second) s = execBlock host second t := by
  rw [execBlock_append, h]
  rfl

/-- A run to the end of two blocks is a run to the end of either of them. -/
theorem exists_of_execBlock_append {first second : Block} {s u : State W}
    (h : execBlock host (first ++ second) s = some (.next, u)) :
    ∃ t, execBlock host first s = some (.next, t) ∧ execBlock host second t = some (.next, u) := by
  rw [execBlock_append] at h
  rcases hfirst : execBlock host first s with _ | ⟨_ | _ | _, t⟩
  case some.next => exact ⟨t, rfl, by rwa [hfirst] at h⟩
  all_goals
    rw [hfirst] at h
    cases h

/-! ### Loops -/

/-- A loop over the items of a list. -/
theorem exec_forItems (index item : String) (body : Block) {p : String} {s : State W} {a : ℕ}
    (hname : s.locals.lookup "ipairs" = none) (hp : s.read p = some (.table a)) :
    (Stmt.forItems index item (.path p) body).exec host s =
      runLoop (execBlock host body) [index, item] (indexed (s.tables a).items) s := by
  have hargs : evalArgs host [.path p] s = some ([.table a], s) :=
    evalArgs_cons (eval_path hp) (evalArgs_nil s)
  have hcall : (Expr.apply "ipairs" [.path p]).eval host s =
      some (.entries (indexed (s.tables a).items), s) :=
    eval_apply_dotFree (by decide) hname hargs
  simp [Stmt.forItems, Stmt.exec, hcall]

/-- A turn of a loop that the next one follows. -/
theorem runLoop_of_next {body : State W → Option (Flow × State W)} {vars : List String}
    {key value : Value} {rest : List (Value × Value)} {s t : State W}
    (h : body (s.pushAll vars [key, value]) = some (.next, t)) :
    runLoop body vars ((key, value) :: rest) s =
      runLoop body vars rest (t.close s.locals.length) := by
  rw [runLoop, h]
  rfl

/-- The expression **decides** the proposition: its evaluation succeeds, changes nothing,
and is truthy exactly if the proposition holds. -/
def Decides (host : Host W) (s : State W) (e : Expr) (P : Prop) : Prop :=
  ∃ v, e.eval host s = some (v, s) ∧ (v.truthy = true ↔ P)

namespace Decides

variable {s : State W} {e l r : Expr} {P Q : Prop}

theorem congr (h : Decides host s e P) (hPQ : P ↔ Q) : Decides host s e Q := by
  obtain ⟨v, hv, htruthy⟩ := h
  exact ⟨v, hv, htruthy.trans hPQ⟩

theorem bool (b : Bool) : Decides host s (.bool b) (b = true) :=
  ⟨.bool b, rfl, by rw [Value.truthy_bool]⟩

theorem negation (h : Decides host s e P) : Decides host s e.negation ¬P := by
  obtain ⟨v, hv, htruthy⟩ := h
  refine ⟨.bool (!v.truthy), eval_unary hv rfl, ?_⟩
  rw [Value.truthy_bool, Bool.not_eq_true', ← Bool.not_eq_true, htruthy]

/-- The second operand is evaluated only if the first one holds. -/
theorem andThen (hl : Decides host s l P) (hr : P → Decides host s r Q) :
    Decides host s (l.and r) (P ∧ Q) := by
  obtain ⟨a, ha, hP⟩ := hl
  have heval := eval_and (r := r) ha
  cases htruthy : a.truthy with
  | true =>
      obtain ⟨b, hb, hQ⟩ := hr (hP.mp htruthy)
      rw [htruthy, if_pos rfl, hb] at heval
      exact ⟨b, heval, by rw [hQ, ← hP, htruthy]; simp⟩
  | false =>
      rw [htruthy, if_neg (by simp)] at heval
      exact ⟨a, heval, by rw [← hP, htruthy]; simp⟩

theorem and (hl : Decides host s l P) (hr : Decides host s r Q) :
    Decides host s (l.and r) (P ∧ Q) := hl.andThen fun _ => hr

theorem or (hl : Decides host s l P) (hr : Decides host s r Q) :
    Decides host s (l.or r) (P ∨ Q) := by
  obtain ⟨a, ha, hP⟩ := hl
  obtain ⟨b, hb, hQ⟩ := hr
  have heval := eval_or (r := r) ha
  cases htruthy : a.truthy with
  | true =>
      rw [htruthy, if_pos rfl] at heval
      exact ⟨a, heval, by rw [← hP, htruthy]; simp⟩
  | false =>
      rw [htruthy, if_neg (by simp), hb] at heval
      exact ⟨b, heval, by rw [hQ, ← hP, htruthy]; simp⟩

/-- A conjunction of expressions decides that all of their propositions hold. -/
theorem allOf {α : Type} {f : α → Prop} {as : List α} {es : List Expr}
    (h : List.Forall₂ (fun a e => Decides host s e (f a)) as es) :
    Decides host s (.allOf es) (∀ a ∈ as, f a) := by
  have hfold : ∀ {as : List α} {es : List Expr},
      List.Forall₂ (fun a e => Decides host s e (f a)) as es →
      ∀ {e : Expr} {P : Prop}, Decides host s e P →
        Decides host s (es.foldl (.binary .and) e) (P ∧ ∀ a ∈ as, f a) := by
    intro as es h
    induction h with
    | nil => exact fun he => he.congr (by simp)
    | cons hhead _ ih =>
        intro e P he
        exact (ih (he.and hhead)).congr (by rw [List.forall_mem_cons, and_assoc])
  cases h with
  | nil => exact (bool true).congr (by simp)
  | cons hhead htail => exact (hfold htail hhead).congr (by rw [List.forall_mem_cons])

/-- A disjunction of expressions decides that one of their propositions holds. -/
theorem anyOf {α : Type} {f : α → Prop} {as : List α} {es : List Expr}
    (h : List.Forall₂ (fun a e => Decides host s e (f a)) as es) :
    Decides host s (.anyOf es) (∃ a ∈ as, f a) := by
  have hfold : ∀ {as : List α} {es : List Expr},
      List.Forall₂ (fun a e => Decides host s e (f a)) as es →
      ∀ {e : Expr} {P : Prop}, Decides host s e P →
        Decides host s (es.foldl (.binary .or) e) (P ∨ ∃ a ∈ as, f a) := by
    intro as es h
    induction h with
    | nil => exact fun he => he.congr (by simp)
    | cons hhead _ ih =>
        intro e P he
        exact (ih (he.or hhead)).congr (by rw [List.exists_mem_cons_iff, or_assoc])
  cases h with
  | nil => exact (bool false).congr (by simp)
  | cons hhead htail => exact (hfold htail hhead).congr (by rw [List.exists_mem_cons_iff])

end Decides

end Lua

end JokerScript
