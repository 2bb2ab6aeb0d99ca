import JokerScript.Hook.Patch
import JokerScript.Lua.Render
import JokerScript.Proofs.Lua.State

/-!
# Running Code

The trees of generated code have a meaning as Lua: `Expr.eval` evaluates an expression and
`execBlock` executes a block, each from a state to a state. Code that goes wrong — a field of
a value that is no table, an operand of a wrong kind — has no result.

Recursion is structural. A loop goes through items that are fixed when it begins, and
generated code calls only functions of the game, so that nothing runs without bound. A
function of generated code is a value; whoever holds it runs it later (`Value.run`).

## The game

What the game does when one of its functions or methods is called is not known here. A
`Host` says it, and each law names what it needs of the host. The functions of the Lua
library that generated code uses are part of the semantics (`library?`).

## Main definitions

* `Lua.Host` — the functions and methods of the game.
* `Lua.Flow` — how a statement ends.
* `Lua.Expr.eval`, `Lua.Stmt.exec`, `Lua.execBlock`, `Lua.runLoop` — runs.
* `Lua.runBody`, `Lua.Value.run` — runs of a function.
-/

namespace JokerScript

namespace Lua

variable {W : Type}

/-! ### The game and the library -/

/-- The functions and methods of the game. A call that goes wrong has no result. -/
structure Host (W : Type) where
  call : String → List Value → State W → Option (Value × State W)
  method : Value → String → List Value → State W → Option (Value × State W)

/-- The items of a sequence up to the first `nil`, with their positions. -/
def indexed (items : List Value) : List (Value × Value) :=
  (items.takeWhile fun v => !v.isNil).mapIdx fun i v =>
    (.number (.finite (i + 1 : ℕ)), v)

/-- The functions of the Lua library that generated code uses; `none` if the name is none of
theirs. The key that `next` finds is that of a sequence. -/
def library? (name : String) (args : List Value) (s : State W) :
    Option (Option (Value × State W)) :=
  match name, args with
  | "ipairs", [.table a] => some (some (.entries (indexed (s.tables a).items), s))
  | "ipairs", _ => some none
  | "next", [.table a] =>
    some (some (if (s.tables a).items.isEmpty then .nil else .number (.finite 1), s))
  | "next", _ => some none
  | "table.insert", [.table a, v] =>
    some (some (.nil, s.setItems a ((s.tables a).items ++ [v])))
  | "table.insert", _ => some none
  | "math.max", [.number a, .number b] => some (some (.number (a.max b), s))
  | "math.max", _ => some none
  | "math.floor", [.number a] => some (some (.number a.floor, s))
  | "math.floor", _ => some none
  | _, _ => none

/-- A call of a function of the library or of the game. -/
def Host.apply (host : Host W) (name : String) (args : List Value) (s : State W) :
    Option (Value × State W) :=
  (library? name args s).getD (host.call name args s)

/-- The name of the function that a callee stands for: a local variable holds a function of
the game, and any other path names one. -/
def State.callee? (s : State W) : Expr → Option String
  | .path p =>
    if (s.locals.lookup (pathRoot p)).isSome then
      match s.read p with
      | some (.native name) => some name
      | _ => none
    else
      some p
  | _ => none

/-! ### Operators -/

/-- The result of a unary operator. -/
def UnaryOp.apply (s : State W) : UnaryOp → Value → Option Value
  | .not, v => some (.bool (!v.truthy))
  | .neg, .number n => some (.number n.neg)
  | .len, .table a => some (.number (.finite (s.tables a).items.length))
  | .len, .str t => some (.number (.finite t.utf8ByteSize))
  | _, _ => none

/-- The value of the first operand, if it settles the result alone. -/
def BinaryOp.shortcut? : BinaryOp → Value → Option Value
  | .and, v => if v.truthy then none else some v
  | .or, v => if v.truthy then some v else none
  | _, _ => none

/-- The result of a binary operator, when the second operand is evaluated. -/
def BinaryOp.finish (op : BinaryOp) (a b : Value) : Option Value :=
  match op with
  | .and | .or => some b
  | _ => op.apply a b

/-! ### Statements -/

/-- How a statement ends. -/
inductive Flow
  /-- The next statement follows. -/
  | next
  /-- The loop around it is left. -/
  | leave
  /-- The function around it returns a value. -/
  | ret (v : Value)

/-- What follows a statement, if the statement does not end the block. -/
def andThen (outcome : Option (Flow × State W)) (rest : State W → Option (Flow × State W)) :
    Option (Flow × State W) :=
  match outcome with
  | some (.next, s) => rest s
  | other => other

/-- The end of a block that began with `n` local variables. -/
def closeBlock (n : ℕ) (outcome : Option (Flow × State W)) : Option (Flow × State W) :=
  outcome.map fun (flow, s) => (flow, s.close n)

/-- The value of a function, and the state after it, when its body ends so. -/
def returned (n : ℕ) : Option (Flow × State W) → Option (Value × State W)
  | some (.next, s) => some (.nil, s.close n)
  | some (.ret v, s) => some (v, s.close n)
  | some (.leave, _) | none => none

/-- A loop over items: `body` is run for each, with its key and its value as local
variables. -/
def runLoop (body : State W → Option (Flow × State W)) (vars : List String) :
    List (Value × Value) → State W → Option (Flow × State W)
  | [], s => some (.next, s)
  | (key, value) :: rest, s =>
    match closeBlock s.locals.length (body (s.pushAll vars [key, value])) with
    | some (.next, s) => runLoop body vars rest s
    | some (.leave, s) => some (.next, s)
    | other => other

/-- The parameters of a function: in method syntax the object comes first. -/
def methodParams (name : String) (params : List String) : List String :=
  if ':' ∈ name.toList then "self" :: params else params

mutual

/-- The value of an expression, and the state after it. -/
def Expr.eval (host : Host W) : Expr → State W → Option (Value × State W)
  | .nil, s => some (.nil, s)
  | .bool b, s => some (.bool b, s)
  | .number n, s => some (.number n.literalValue, s)
  | .str t, s => some (.str t, s)
  | .path p, s => (s.read p).map fun v => (v, s)
  | .unary op e, s => do
    let (v, s) ← e.eval host s
    let r ← op.apply s v
    return (r, s)
  | .binary op l r, s => do
    let (a, s) ← l.eval host s
    match op.shortcut? a with
    | some v => return (v, s)
    | none =>
      let (b, s) ← r.eval host s
      let v ← op.finish a b
      return (v, s)
  | .call callee args, s => do
    let name ← s.callee? callee
    let (vs, s) ← evalArgs host args s
    host.apply name vs s
  | .method receiver name args, s => do
    let (v, s) ← receiver.eval host s
    let (vs, s) ← evalArgs host args s
    host.method v name vs s
  | .table fields, s => do
    let (t, s) ← evalFields host fields s
    return s.alloc t
  | .function params body, s => some (.closure params body s.locals, s)
  | .invoked body, s => returned s.locals.length (execBlock host body s)

/-- The values of arguments, from left to right. -/
def evalArgs (host : Host W) : List Expr → State W → Option (List Value × State W)
  | [], s => some ([], s)
  | e :: rest, s => do
    let (v, s) ← e.eval host s
    let (vs, s) ← evalArgs host rest s
    return (v :: vs, s)

/-- The table that fields make. -/
def evalFields (host : Host W) : List Field → State W → Option (Table × State W)
  | [], s => some ({}, s)
  | .named name e :: rest, s => do
    let (v, s) ← e.eval host s
    let (t, s) ← evalFields host rest s
    return ({ t with field := Function.update t.field name v }, s)
  | .positional e :: rest, s => do
    let (v, s) ← e.eval host s
    let (t, s) ← evalFields host rest s
    return ({ t with items := v :: t.items }, s)

/-- The run of a statement. -/
def Stmt.exec (host : Host W) : Stmt → State W → Option (Flow × State W)
  | .declare name none, s => some (.next, s.push name .nil)
  | .declare name (some e), s => do
    let (v, s) ← e.eval host s
    return (.next, s.push name v)
  | .assign target e, s =>
    match target with
    | .path p => do
      let (v, s) ← e.eval host s
      let s ← s.write p v
      return (.next, s)
    | _ => none
  | .run e, s => do
    let (_, s) ← e.eval host s
    return (.next, s)
  | .branch arms otherwise, s => execArms host arms (execElse host otherwise) s
  | .forIn vars iter body, s => do
    let (v, s) ← iter.eval host s
    match v with
    | .entries items => runLoop (execBlock host body) vars items s
    | _ => none
  | .ret none, s => some (.ret .nil, s)
  | .ret (some e), s => do
    let (v, s) ← e.eval host s
    return (.ret v, s)
  | .leave, s => some (.leave, s)
  | .define name params body, s => do
    let s ← s.write (functionPath name) (.closure (methodParams name params) body s.locals)
    return (.next, s)

/-- The run of the first arm whose condition holds, or else of `otherwise`. -/
def execArms (host : Host W) :
    List Arm → (State W → Option (Flow × State W)) → State W → Option (Flow × State W)
  | [], otherwise, s => otherwise s
  | .mk condition body :: rest, otherwise, s => do
    let (v, s) ← condition.eval host s
    if v.truthy then
      closeBlock s.locals.length (execBlock host body s)
    else
      execArms host rest otherwise s

/-- The run of the last alternative of a branch. -/
def execElse (host : Host W) : Option (List Stmt) → State W → Option (Flow × State W)
  | none, s => some (.next, s)
  | some body, s => closeBlock s.locals.length (execBlock host body s)

/-- The run of a block. Its local variables stay visible in the state after it. -/
def execBlock (host : Host W) : List Stmt → State W → Option (Flow × State W)
  | [], s => some (.next, s)
  | stmt :: rest, s => andThen (stmt.exec host s) (execBlock host rest)

end

/-! ### Functions -/

/-- The run of a block as the body of a function. -/
def runBody (host : Host W) (body : Block) (s : State W) : Option (Value × State W) :=
  returned s.locals.length (execBlock host body s)

/-- The run of a function of generated code: its body sees the captured variables and the
arguments, and nothing of the caller's. -/
def Value.run (host : Host W) (args : List Value) (s : State W) :
    Value → Option (Value × State W)
  | .closure params body captured =>
    (runBody host body (({ s with locals := captured } : State W).pushAll params args)).map
      fun (v, s') => (v, { s' with locals := s.locals })
  | .native name => host.apply name args s
  | _ => none

end Lua

end JokerScript
