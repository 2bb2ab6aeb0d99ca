import JokerScript.Lua.Syntax

/-!
# Numbers in Code

The **numbers** of a tree are its numerals, inside functions too, in the order in which they
stand.

## Main definitions

* `Lua.Expr.numbers`, `Lua.Stmt.numbers`, `Lua.blockNumbers` — the numbers of trees.
-/

namespace JokerScript

namespace Lua

mutual

/-- The numbers in an expression. -/
def Expr.numbers : Expr → List Number
  | .number n => [n]
  | .nil | .bool _ | .str _ | .path _ => []
  | .unary _ e => e.numbers
  | .binary _ l r => l.numbers ++ r.numbers
  | .call callee args => callee.numbers ++ argNumbers args
  | .method receiver _ args => receiver.numbers ++ argNumbers args
  | .table fields => fieldNumbers fields
  | .function _ body => blockNumbers body
  | .invoked body => blockNumbers body

/-- The numbers in arguments. -/
def argNumbers : List Expr → List Number
  | [] => []
  | e :: rest => e.numbers ++ argNumbers rest

/-- The numbers in the fields of a table. -/
def fieldNumbers : List Field → List Number
  | [] => []
  | .named _ e :: rest => e.numbers ++ fieldNumbers rest
  | .positional e :: rest => e.numbers ++ fieldNumbers rest

/-- The numbers in a statement. -/
def Stmt.numbers : Stmt → List Number
  | .declare _ none => []
  | .declare _ (some e) => e.numbers
  | .assign target e => target.numbers ++ e.numbers
  | .run e => e.numbers
  | .branch arms otherwise => armNumbers arms ++ elseNumbers otherwise
  | .forIn _ iter body => iter.numbers ++ blockNumbers body
  | .ret none => []
  | .ret (some e) => e.numbers
  | .leave => []
  | .define _ _ body => blockNumbers body

/-- The numbers in the arms of a branch. -/
def armNumbers : List Arm → List Number
  | [] => []
  | .mk condition body :: rest => condition.numbers ++ (blockNumbers body ++ armNumbers rest)

/-- The numbers in the last alternative of a branch. -/
def elseNumbers : Option (List Stmt) → List Number
  | none => []
  | some body => blockNumbers body

/-- The numbers in a block. -/
def blockNumbers : List Stmt → List Number
  | [] => []
  | stmt :: rest => stmt.numbers ++ blockNumbers rest

end

/-! ### Constructs -/

namespace Expr

@[simp] theorem numbers_number (n : Number) : (Expr.number n).numbers = [n] := rfl

@[simp] theorem numbers_str (s : String) : (Expr.str s).numbers = [] := rfl

@[simp] theorem numbers_path (p : String) : (Expr.path p).numbers = [] := rfl

@[simp] theorem numbers_extra (name : String) : (Expr.extra name).numbers = [] := rfl

@[simp] theorem numbers_length (e : Expr) : e.length.numbers = e.numbers := rfl

@[simp] theorem numbers_plus (l r : Expr) : (l.plus r).numbers = l.numbers ++ r.numbers := rfl

@[simp] theorem numbers_minus (l r : Expr) : (l.minus r).numbers = l.numbers ++ r.numbers := rfl

@[simp] theorem numbers_times (l r : Expr) : (l.times r).numbers = l.numbers ++ r.numbers := rfl

theorem argNumbers_eq (args : List Expr) : argNumbers args = args.flatMap numbers := by
  induction args with
  | nil => rfl
  | cons e args ih => exact congrArg (e.numbers ++ ·) ih

@[simp] theorem numbers_apply (callee : String) (args : List Expr) :
    (apply callee args).numbers = args.flatMap numbers :=
  argNumbers_eq args

end Expr

end Lua

end JokerScript
