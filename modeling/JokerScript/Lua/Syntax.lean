import JokerScript.Number.Basic

/-!
# Lua Syntax Trees

Generated code is built as a tree and becomes text only at the very end. The trees cover
the part of Lua that generated code needs. A dotted path is one leaf, since nothing ever
takes it apart.

## Main definitions

* `Lua.Expr`, `Lua.Field`, `Lua.Stmt`, `Lua.Arm` — the trees.
* `Lua.Block` — a list of statements.
* `Lua.Expr.anyOf`, `Lua.Expr.allOf`, `Lua.Expr.concat` — operators over lists.
-/

namespace JokerScript.Lua

/-! ### Operators -/

/-- The unary operators. -/
inductive UnaryOp
  | not | neg | len
deriving DecidableEq, Repr

/-- The binary operators, from the loosest to the tightest. -/
inductive BinaryOp
  | or | and
  | eq | ne | lt | le | gt | ge
  | concat
  | add | sub
  | mul | div
deriving DecidableEq, Repr

namespace UnaryOp

/-- The text of the operator; a word is followed by a blank. -/
def symbol : UnaryOp → String
  | not => "not "
  | neg => "-"
  | len => "#"

end UnaryOp

namespace BinaryOp

/-- The binding strength; a higher level binds tighter. -/
def precedence : BinaryOp → Nat
  | or => 1
  | and => 2
  | eq | ne | lt | le | gt | ge => 3
  | concat => 4
  | add | sub => 5
  | mul | div => 6

/-- Does the operator group to the right? Only `..` does. -/
def isRightAssoc : BinaryOp → Bool
  | concat => true
  | _ => false

/-- The text of the operator. -/
def symbol : BinaryOp → String
  | or => "or"
  | and => "and"
  | eq => "=="
  | ne => "~="
  | lt => "<"
  | le => "<="
  | gt => ">"
  | ge => ">="
  | concat => ".."
  | add => "+"
  | sub => "-"
  | mul => "*"
  | div => "/"

end BinaryOp

/-! ### Trees -/

mutual

/-- An expression. -/
inductive Expr where
  | nil
  | bool (b : Bool)
  | number (n : Number)
  | str (s : String)
  /-- An identifier or a dotted path. -/
  | path (p : String)
  | unary (op : UnaryOp) (e : Expr)
  | binary (op : BinaryOp) (l r : Expr)
  | call (callee : Expr) (args : List Expr)
  /-- A call `receiver:name(args)`. -/
  | method (receiver : Expr) (name : String) (args : List Expr)
  | table (fields : List Field)
  | function (params : List String) (body : List Stmt)
  /-- A function without parameters that is called where it stands. -/
  | invoked (body : List Stmt)

/-- A field of a table constructor. -/
inductive Field where
  | named (name : String) (value : Expr)
  | positional (value : Expr)

/-- A statement. -/
inductive Stmt where
  /-- A local variable, with or without an initial value. -/
  | declare (name : String) (value : Option Expr)
  | assign (target : Expr) (value : Expr)
  /-- An expression evaluated for its effects. -/
  | run (e : Expr)
  /-- Arms tried in order, then the last alternative, if there is one. -/
  | branch (arms : List Arm) (otherwise : Option (List Stmt))
  | forIn (vars : List String) (iter : Expr) (body : List Stmt)
  | ret (value : Option Expr)
  | leave
  /-- A named function; the name may be a path or a method. -/
  | define (name : String) (params : List String) (body : List Stmt)

/-- One condition of a branch, with its block. -/
inductive Arm where
  | mk (condition : Expr) (body : List Stmt)

end

/-- Statements in order. -/
abbrev Block := List Stmt

instance : Inhabited Expr := ⟨.nil⟩

/-! ### Building expressions -/

namespace Expr

/-- A call of a function named by a path. -/
def apply (callee : String) (args : List Expr) : Expr := call (path callee) args

/-- A table constructor with named fields. -/
def record (fields : List (String × Expr)) : Expr :=
  table (fields.map fun (name, value) => .named name value)

/-- A function without parameters. -/
def thunk (body : Block) : Expr := function [] body

/-- Text pieces joined by `..`, nested to the right so that no parentheses are needed. -/
def concat : List Expr → Expr
  | [] => str ""
  | [e] => e
  | e :: rest => binary .concat e (concat rest)

/-- Expressions joined by one operator, nested to the left; `unit` if there are none. -/
def joined (op : BinaryOp) (unit : Expr) : List Expr → Expr
  | [] => unit
  | e :: rest => rest.foldl (binary op) e

/-- True if one of the expressions is. -/
def anyOf (es : List Expr) : Expr := joined .or (bool false) es

/-- True if all of the expressions are. -/
def allOf (es : List Expr) : Expr := joined .and (bool true) es

/-! ### Literals and storage -/

/-- The literal `0`. -/
def zero : Expr := number (Number.zero false)

/-- The literal `1`. -/
def one : Expr := number Number.one

/-- The storage of one variable of a joker; every copy of the joker has its own. -/
def extra (name : String) : Expr := path ("card.ability.extra." ++ name)

/-! ### Operators as methods -/

/-- The first operand that is truthy, else the second. -/
def or (l r : Expr) : Expr := binary .or l r

/-- The first operand that is not truthy, else the second. -/
def and (l r : Expr) : Expr := binary .and l r

/-- The comparison `l == r`. -/
def equals (l r : Expr) : Expr := binary .eq l r

/-- The comparison `l < r`. -/
def lt (l r : Expr) : Expr := binary .lt l r

/-- The comparison `l <= r`. -/
def le (l r : Expr) : Expr := binary .le l r

/-- The comparison `l > r`. -/
def gt (l r : Expr) : Expr := binary .gt l r

/-- The comparison `l >= r`. -/
def ge (l r : Expr) : Expr := binary .ge l r

/-- The sum. -/
def plus (l r : Expr) : Expr := binary .add l r

/-- The difference. -/
def minus (l r : Expr) : Expr := binary .sub l r

/-- The product. -/
def times (l r : Expr) : Expr := binary .mul l r

/-- The quotient. -/
def dividedBy (l r : Expr) : Expr := binary .div l r

/-- The negated truth value. -/
def negation (e : Expr) : Expr := unary .not e

/-- The number with the opposite sign. -/
def opposite (e : Expr) : Expr := unary .neg e

/-- The length of a sequence. -/
def length (e : Expr) : Expr := unary .len e

end Expr

/-! ### Building statements -/

namespace Stmt

/-- A local variable with its initial value. -/
def letLocal (name : String) (value : Expr) : Stmt := declare name (some value)

/-- An assignment to a path. -/
def set (target : String) (value : Expr) : Stmt := assign (.path target) value

/-- A call of a function named by a path. -/
def call (callee : String) (args : List Expr) : Stmt := run (.apply callee args)

/-- A branch with one arm. -/
def ifThen (condition : Expr) (body : Block) : Stmt := branch [.mk condition body] none

/-- A return of one value. -/
def returning (value : Expr) : Stmt := ret (some value)

/-- A loop over the items of a sequence, in order. -/
def forItems (index value : String) (source : Expr) (body : Block) : Stmt :=
  forIn [index, value] (.apply "ipairs" [source]) body

/-- A loop over the entries of a table, in no particular order. -/
def forEntries (key value : String) (source : Expr) (body : Block) : Stmt :=
  forIn [key, value] (.apply "pairs" [source]) body

end Stmt

end JokerScript.Lua
