import JokerScript.Proofs.Lua.Draws

/-!
# Draws in Loops

The body of a loop runs once for each item, so that a draw in it draws as often. The **loop draws**
of a tree are the draws in the bodies of its loops. What a loop goes through is found before the
loop begins, and does not count.

## Main definitions

* `Lua.Expr.loopDraws`, `Lua.blockLoopDraws` — the draws in the loops of trees.

## Main results

* `Lua.Expr.loopDraws_sublist` — the draws in loops are draws.
-/

namespace JokerScript

namespace Lua

mutual

/-- The draws in the loops of an expression. -/
def Expr.loopDraws : Expr → List DrawCall
  | .nil | .bool _ | .number _ | .str _ | .path _ => []
  | .unary _ e => e.loopDraws
  | .binary _ l r => l.loopDraws ++ r.loopDraws
  | .call callee args => callee.loopDraws ++ argLoopDraws args
  | .method receiver _ args => receiver.loopDraws ++ argLoopDraws args
  | .table fields => fieldLoopDraws fields
  | .function _ body => blockLoopDraws body
  | .invoked body => blockLoopDraws body

/-- The draws in the loops of arguments. -/
def argLoopDraws : List Expr → List DrawCall
  | [] => []
  | e :: rest => e.loopDraws ++ argLoopDraws rest

/-- The draws in the loops of the fields of a table. -/
def fieldLoopDraws : List Field → List DrawCall
  | [] => []
  | .named _ e :: rest => e.loopDraws ++ fieldLoopDraws rest
  | .positional e :: rest => e.loopDraws ++ fieldLoopDraws rest

/-- The draws in the loops of a statement. In the body of a loop, every draw counts. -/
def Stmt.loopDraws : Stmt → List DrawCall
  | .declare _ none => []
  | .declare _ (some e) => e.loopDraws
  | .assign target e => target.loopDraws ++ e.loopDraws
  | .run e => e.loopDraws
  | .branch arms otherwise => armLoopDraws arms ++ elseLoopDraws otherwise
  | .forIn _ iter body => iter.loopDraws ++ blockDraws body
  | .ret none => []
  | .ret (some e) => e.loopDraws
  | .leave => []
  | .define _ _ body => blockLoopDraws body

/-- The draws in the loops of the arms of a branch. -/
def armLoopDraws : List Arm → List DrawCall
  | [] => []
  | .mk condition body :: rest =>
    condition.loopDraws ++ (blockLoopDraws body ++ armLoopDraws rest)

/-- The draws in the loops of the last alternative of a branch. -/
def elseLoopDraws : Option (List Stmt) → List DrawCall
  | none => []
  | some body => blockLoopDraws body

/-- The draws in the loops of a block. -/
def blockLoopDraws : List Stmt → List DrawCall
  | [] => []
  | stmt :: rest => stmt.loopDraws ++ blockLoopDraws rest

end

/-! ### Draws -/

mutual

/-- **The draws in loops are draws.** -/
theorem Expr.loopDraws_sublist : ∀ e : Expr, e.loopDraws.Sublist e.draws
  | .nil | .bool _ | .number _ | .str _ | .path _ => .slnil
  | .unary _ e => e.loopDraws_sublist
  | .binary _ l r => l.loopDraws_sublist.append r.loopDraws_sublist
  | .call callee args =>
      (callee.loopDraws_sublist.append (argLoopDraws_sublist args)).trans
        (List.sublist_append_right _ _)
  | .method receiver _ args => receiver.loopDraws_sublist.append (argLoopDraws_sublist args)
  | .table fields => fieldLoopDraws_sublist fields
  | .function _ body => blockLoopDraws_sublist body
  | .invoked body => blockLoopDraws_sublist body

theorem argLoopDraws_sublist : ∀ args : List Expr, (argLoopDraws args).Sublist (argDraws args)
  | [] => .slnil
  | e :: rest => e.loopDraws_sublist.append (argLoopDraws_sublist rest)

theorem fieldLoopDraws_sublist :
    ∀ fields : List Field, (fieldLoopDraws fields).Sublist (fieldDraws fields)
  | [] => .slnil
  | .named _ e :: rest => e.loopDraws_sublist.append (fieldLoopDraws_sublist rest)
  | .positional e :: rest => e.loopDraws_sublist.append (fieldLoopDraws_sublist rest)

theorem Stmt.loopDraws_sublist : ∀ stmt : Stmt, stmt.loopDraws.Sublist stmt.draws
  | .declare _ none | .ret none | .leave => .slnil
  | .declare _ (some e) | .run e | .ret (some e) => e.loopDraws_sublist
  | .assign target e => target.loopDraws_sublist.append e.loopDraws_sublist
  | .branch arms otherwise =>
      (armLoopDraws_sublist arms).append (elseLoopDraws_sublist otherwise)
  | .forIn _ iter _ => iter.loopDraws_sublist.append (List.Sublist.refl _)
  | .define _ _ body => blockLoopDraws_sublist body

theorem armLoopDraws_sublist : ∀ arms : List Arm, (armLoopDraws arms).Sublist (armDraws arms)
  | [] => .slnil
  | .mk condition body :: rest =>
      condition.loopDraws_sublist.append
        ((blockLoopDraws_sublist body).append (armLoopDraws_sublist rest))

theorem elseLoopDraws_sublist :
    ∀ otherwise : Option (List Stmt), (elseLoopDraws otherwise).Sublist (elseDraws otherwise)
  | none => .slnil
  | some body => blockLoopDraws_sublist body

theorem blockLoopDraws_sublist :
    ∀ body : List Stmt, (blockLoopDraws body).Sublist (blockDraws body)
  | [] => .slnil
  | stmt :: rest => stmt.loopDraws_sublist.append (blockLoopDraws_sublist rest)

end

/-! ### Constructs -/

namespace Expr

/-- What does not draw does not draw in a loop. -/
theorem loopDraws_eq_nil {e : Expr} (h : e.draws = []) : e.loopDraws = [] :=
  List.sublist_nil.mp (h ▸ e.loopDraws_sublist)

@[simp] theorem loopDraws_bool (b : Bool) : (Expr.bool b).loopDraws = [] := rfl

@[simp] theorem loopDraws_zero : Expr.zero.loopDraws = [] := rfl

@[simp] theorem loopDraws_path (p : String) : (Expr.path p).loopDraws = [] := rfl

@[simp] theorem loopDraws_unary (op : UnaryOp) (e : Expr) :
    (unary op e).loopDraws = e.loopDraws := rfl

@[simp] theorem loopDraws_binary (op : BinaryOp) (l r : Expr) :
    (binary op l r).loopDraws = l.loopDraws ++ r.loopDraws := rfl

@[simp] theorem loopDraws_invoked (body : Block) :
    (invoked body).loopDraws = blockLoopDraws body := rfl

end Expr

@[simp] theorem blockLoopDraws_nil : blockLoopDraws [] = [] := rfl

@[simp] theorem blockLoopDraws_cons (stmt : Stmt) (rest : Block) :
    blockLoopDraws (stmt :: rest) = stmt.loopDraws ++ blockLoopDraws rest := rfl

namespace Stmt

@[simp] theorem loopDraws_letLocal (name : String) (e : Expr) :
    (letLocal name e).loopDraws = e.loopDraws := rfl

@[simp] theorem loopDraws_returning (e : Expr) : (returning e).loopDraws = e.loopDraws := rfl

@[simp] theorem loopDraws_forItems (index value : String) (source : Expr) (body : Block) :
    (forItems index value source body).loopDraws = source.loopDraws ++ blockDraws body := by
  change [] ++ (source.loopDraws ++ []) ++ blockDraws body = _
  rw [List.nil_append, List.append_nil]

end Stmt

end Lua

end JokerScript
