import JokerScript.Proofs.Lua.Joined

/-!
# Draws in Code

The game draws at random from named streams: `pseudorandom` gives a number, `pseudoseed` the
seed of another choice. The **draws** of a tree are all calls of these two functions in it,
inside functions too, each with its arguments.

## Main definitions

* `Lua.DrawCall`, `Lua.Expr.draws`, `Lua.blockDraws` — the draws of trees.

## Main results

* `Lua.Joins.draws`, `Lua.JoinsTo.draws` — the draws of joined expressions.
-/

namespace JokerScript

namespace Lua

/-! ### Draws -/

/-- A call of a function that draws at random. -/
structure DrawCall where
  callee : String
  args : List Expr

/-- The functions of the game that draw from a stream. -/
def drawCallees : List String := ["pseudorandom", "pseudoseed"]

/-- The draw that a call is, if it is one. -/
def callDraws (callee : String) (args : List Expr) : List DrawCall :=
  if callee ∈ drawCallees then [⟨callee, args⟩] else []

/-- The draw that a call of an expression is, if it is one. -/
def calleeDraws : Expr → List Expr → List DrawCall
  | .path p, args => callDraws p args
  | _, _ => []

mutual

/-- The draws in an expression. -/
def Expr.draws : Expr → List DrawCall
  | .nil | .bool _ | .number _ | .str _ | .path _ => []
  | .unary _ e => e.draws
  | .binary _ l r => l.draws ++ r.draws
  | .call callee args => calleeDraws callee args ++ (callee.draws ++ argDraws args)
  | .method receiver _ args => receiver.draws ++ argDraws args
  | .table fields => fieldDraws fields
  | .function _ body => blockDraws body
  | .invoked body => blockDraws body

/-- The draws in arguments. -/
def argDraws : List Expr → List DrawCall
  | [] => []
  | e :: rest => e.draws ++ argDraws rest

/-- The draws in the fields of a table. -/
def fieldDraws : List Field → List DrawCall
  | [] => []
  | .named _ e :: rest => e.draws ++ fieldDraws rest
  | .positional e :: rest => e.draws ++ fieldDraws rest

/-- The draws in a statement. -/
def Stmt.draws : Stmt → List DrawCall
  | .declare _ none => []
  | .declare _ (some e) => e.draws
  | .assign target e => target.draws ++ e.draws
  | .run e => e.draws
  | .branch arms otherwise => armDraws arms ++ elseDraws otherwise
  | .forIn _ iter body => iter.draws ++ blockDraws body
  | .ret none => []
  | .ret (some e) => e.draws
  | .leave => []
  | .define _ _ body => blockDraws body

/-- The draws in the arms of a branch. -/
def armDraws : List Arm → List DrawCall
  | [] => []
  | .mk condition body :: rest => condition.draws ++ (blockDraws body ++ armDraws rest)

/-- The draws in the last alternative of a branch. -/
def elseDraws : Option (List Stmt) → List DrawCall
  | none => []
  | some body => blockDraws body

/-- The draws in a block. -/
def blockDraws : List Stmt → List DrawCall
  | [] => []
  | stmt :: rest => stmt.draws ++ blockDraws rest

end

/-! ### Constructs -/

namespace Expr

@[simp] theorem draws_nil : Expr.nil.draws = [] := rfl

@[simp] theorem draws_bool (b : Bool) : (Expr.bool b).draws = [] := rfl

@[simp] theorem draws_number (n : Number) : (Expr.number n).draws = [] := rfl

@[simp] theorem draws_str (s : String) : (Expr.str s).draws = [] := rfl

@[simp] theorem draws_zero : Expr.zero.draws = [] := rfl

@[simp] theorem draws_one : Expr.one.draws = [] := rfl

@[simp] theorem draws_path (p : String) : (Expr.path p).draws = [] := rfl

@[simp] theorem draws_extra (name : String) : (Expr.extra name).draws = [] := rfl

@[simp] theorem draws_unary (op : UnaryOp) (e : Expr) : (unary op e).draws = e.draws := rfl

@[simp] theorem draws_binary (op : BinaryOp) (l r : Expr) :
    (binary op l r).draws = l.draws ++ r.draws := rfl

theorem argDraws_eq (args : List Expr) : argDraws args = args.flatMap draws := by
  induction args with
  | nil => rfl
  | cons e args ih => exact congrArg (e.draws ++ ·) ih

@[simp] theorem draws_apply (callee : String) (args : List Expr) :
    (apply callee args).draws = callDraws callee args ++ args.flatMap draws :=
  congrArg (callDraws callee args ++ ·) (argDraws_eq args)

@[simp] theorem draws_method (receiver : Expr) (name : String) (args : List Expr) :
    (method receiver name args).draws = receiver.draws ++ args.flatMap draws :=
  congrArg (receiver.draws ++ ·) (argDraws_eq args)

@[simp] theorem draws_record (fields : List (String × Expr)) :
    (record fields).draws = fields.flatMap fun field => field.2.draws := by
  induction fields with
  | nil => rfl
  | cons field fields ih => exact congrArg (field.2.draws ++ ·) ih

@[simp] theorem draws_table_nil : (table []).draws = [] := rfl

@[simp] theorem draws_thunk (body : Block) : (thunk body).draws = blockDraws body := rfl

@[simp] theorem draws_invoked (body : Block) : (invoked body).draws = blockDraws body := rfl

@[simp] theorem draws_concat (es : List Expr) : (concat es).draws = es.flatMap draws := by
  induction es with
  | nil => rfl
  | cons first es ih =>
      cases es with
      | nil => simp [concat]
      | cons second es => exact congrArg (first.draws ++ ·) ih

end Expr

@[simp] theorem blockDraws_nil : blockDraws [] = [] := rfl

@[simp] theorem blockDraws_cons (stmt : Stmt) (rest : Block) :
    blockDraws (stmt :: rest) = stmt.draws ++ blockDraws rest := rfl

@[simp] theorem blockDraws_append (first second : Block) :
    blockDraws (first ++ second) = blockDraws first ++ blockDraws second := by
  induction first with
  | nil => rfl
  | cons stmt first ih =>
      rw [List.cons_append, blockDraws_cons, ih, blockDraws_cons, List.append_assoc]

namespace Stmt

@[simp] theorem draws_letLocal (name : String) (e : Expr) :
    (letLocal name e).draws = e.draws := rfl

@[simp] theorem draws_set (target : String) (e : Expr) : (set target e).draws = e.draws := rfl

@[simp] theorem draws_assign_extra (name : String) (e : Expr) :
    (assign (.extra name) e).draws = e.draws := rfl

@[simp] theorem draws_run (e : Expr) : (run e).draws = e.draws := rfl

@[simp] theorem draws_call (callee : String) (args : List Expr) :
    (call callee args).draws = callDraws callee args ++ args.flatMap Expr.draws :=
  Expr.draws_apply callee args

@[simp] theorem draws_ifThen (condition : Expr) (body : Block) :
    (ifThen condition body).draws = condition.draws ++ blockDraws body := by
  change condition.draws ++ (blockDraws body ++ []) ++ [] = _
  rw [List.append_nil, List.append_nil]

@[simp] theorem draws_returning (e : Expr) : (returning e).draws = e.draws := rfl

@[simp] theorem draws_leave : leave.draws = [] := rfl

@[simp] theorem draws_forItems (index value : String) (source : Expr) (body : Block) :
    (forItems index value source body).draws = source.draws ++ blockDraws body := by
  change (Expr.apply "ipairs" [source]).draws ++ blockDraws body = _
  simp [callDraws, drawCallees]

@[simp] theorem draws_forEntries (key value : String) (source : Expr) (body : Block) :
    (forEntries key value source body).draws = source.draws ++ blockDraws body := by
  change (Expr.apply "pairs" [source]).draws ++ blockDraws body = _
  simp [callDraws, drawCallees]

end Stmt

/-! ### Joined expressions -/

/-- **The draws of joined expressions** are those of the parts. -/
theorem Joins.draws {es : List Expr} {e : Expr} (h : Joins es e) :
    e.draws = es.flatMap Expr.draws := by
  induction h with
  | single e => simp
  | binary op _ _ ihl ihr => rw [Expr.draws_binary, ihl, ihr, List.flatMap_append]

theorem JoinsTo.draws {es : List Expr} {code : Option Expr} (h : JoinsTo es code) :
    code.toList.flatMap Expr.draws = es.flatMap Expr.draws := by
  cases h with
  | none => rfl
  | some hjoins => rw [Option.toList_some, List.flatMap_singleton, hjoins.draws]

end Lua

end JokerScript
