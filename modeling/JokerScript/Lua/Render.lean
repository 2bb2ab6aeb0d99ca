import JokerScript.Lua.Syntax
import JokerScript.Number.Text

/-!
# Rendering Lua

A tree becomes text in two steps. First it is laid out as pieces of text and line
breaks, where a line break knows only how deep the next line is nested; then the breaks
are written with a given number of blanks a level. The indentation therefore cannot
reach anything but the leading blanks of lines.

Parentheses are placed by operator precedence alone: where an operand would otherwise
be read differently, and nowhere else.

## Main definitions

* `Lua.Piece` — a piece of a layout.
* `Lua.Expr.isMultiline` — does the layout of an expression break the line?
* `Lua.Expr.layout`, `Lua.Block.layout` — the layouts.
* `Lua.Expr.render`, `Lua.Block.render` — the texts.
-/

namespace JokerScript.Lua

/-! ### Literals -/

/-- The text of a number literal. Integers below `10 ^ 15` are written without a sign of
zero; NaN, which has no literal, counts as zero. -/
def numeral (n : Number) : String :=
  if n.isNaN then
    "0"
  else if !n.isFinite then
    if n.negative then "-math.huge" else "math.huge"
  else
    match n.whole? with
    | some magnitude =>
      if magnitude < 1000000000000000 then
        String.ofList
          ((if n.negative && magnitude != 0 then ['-'] else []) ++ digitChars magnitude)
      else
        n.text
    | none => n.text

/-- How one character stands in a string literal. -/
def escapeChar (c : Char) : List Char :=
  if c = '\\' then ['\\', '\\']
  else if c = '"' then ['\\', '"']
  else if c = '\n' then ['\\', 'n']
  else if c = '\r' then ['\\', 'r']
  else if c = '\t' then ['\\', 't']
  else [c]

/-- The text of a string literal, with its quotes. -/
def quote (s : String) : String :=
  String.ofList ('"' :: s.toList.flatMap escapeChar ++ ['"'])

/-! ### Layouts -/

/-- A piece of a layout. -/
inductive Piece
  | text (s : String)
  /-- A line break; the next line is nested `depth` levels deep. -/
  | line (depth : Nat)
deriving DecidableEq, Repr

/-- Pieces in order. -/
abbrev Layout := List Piece

namespace Piece

/-- The characters of a piece, at `width` blanks a level. -/
def chars (width : Nat) : Piece → List Char
  | text s => s.toList
  | line depth => '\n' :: List.replicate (depth * width) ' '

end Piece

namespace Layout

/-- The text of a layout, at `width` blanks a level. -/
def toText (width : Nat) (layout : Layout) : String :=
  String.ofList (layout.flatMap (Piece.chars width))

/-- The layout between parentheses if `wrap` holds. -/
def wrapped (wrap : Bool) (layout : Layout) : Layout :=
  if wrap then .text "(" :: layout ++ [.text ")"] else layout

end Layout

/-! ### Parentheses -/

namespace Expr

/-- Does an operand of a unary operator need parentheses? Two minus signs in a row would
begin a comment. -/
def wrapsUnder (op : UnaryOp) : Expr → Bool
  | binary .. => true
  | unary .neg _ => op == .neg
  | number n => op == .neg && n.negative
  | _ => false

/-- Does an operand of a binary operator need parentheses? -/
def wrapsBeside (parent : BinaryOp) (isRight : Bool) : Expr → Bool
  | binary op .. =>
    op.precedence < parent.precedence ||
      (op.precedence == parent.precedence && isRight != parent.isRightAssoc)
  | _ => false

/-- Does the expression need parentheses to be called? -/
def wrapsAsCallee : Expr → Bool
  | path _ | call .. | method .. => false
  | _ => true

end Expr

/-! ### Line breaks -/

mutual

/-- Does the layout of the expression break the line? Only functions bring breaks. -/
def Expr.isMultiline : Expr → Bool
  | .function .. | .invoked _ => true
  | .table fields => anyFieldMultiline fields
  | .call callee args => callee.isMultiline || anyMultiline args
  | .method receiver _ args => receiver.isMultiline || anyMultiline args
  | .unary _ e => e.isMultiline
  | .binary _ l r => l.isMultiline || r.isMultiline
  | .nil | .bool _ | .number _ | .str _ | .path _ => false

/-- Does the layout of one of the expressions break the line? -/
def anyMultiline : List Expr → Bool
  | [] => false
  | e :: rest => e.isMultiline || anyMultiline rest

/-- Does the layout of the value of one of the fields break the line? -/
def anyFieldMultiline : List Field → Bool
  | [] => false
  | .named _ e :: rest => e.isMultiline || anyFieldMultiline rest
  | .positional e :: rest => e.isMultiline || anyFieldMultiline rest

end

/-! ### Trees -/

/-- Names separated by commas. -/
def commaSeparated (names : List String) : Piece := .text (", ".intercalate names)

/-- What stands before a field of a table that is spread over lines, or not. -/
def fieldLead (multiline isFirst : Bool) (depth : Nat) : Layout :=
  match multiline, isFirst with
  | true, true => [.line (depth + 1)]
  | true, false => [.text ",", .line (depth + 1)]
  | false, true => []
  | false, false => [.text ", "]

mutual

/-- The layout of an expression on a line nested `depth` levels deep. -/
def Expr.layout (depth : Nat) : Expr → Layout
  | .nil => [.text "nil"]
  | .bool b => [.text (if b then "true" else "false")]
  | .number n => [.text (numeral n)]
  | .str s => [.text (quote s)]
  | .path p => [.text p]
  | .unary op e => .text op.symbol :: (e.layout depth).wrapped (e.wrapsUnder op)
  | .binary op l r =>
    (l.layout depth).wrapped (l.wrapsBeside op false) ++
      .text " " :: .text op.symbol :: .text " " ::
        (r.layout depth).wrapped (r.wrapsBeside op true)
  | .call callee args =>
    (callee.layout depth).wrapped callee.wrapsAsCallee ++
      .text "(" :: argsLayout depth args ++ [.text ")"]
  | .method receiver name args =>
    (receiver.layout depth).wrapped receiver.wrapsAsCallee ++
      .text ":" :: .text name :: .text "(" :: argsLayout depth args ++ [.text ")"]
  | .table fields =>
    let multiline := anyFieldMultiline fields
    .text "\x7b" :: fieldsLayout multiline true depth fields ++
      (if multiline then [.line depth] else []) ++ [.text "\x7d"]
  | .function params body =>
    .text "function(" :: commaSeparated params :: .text ")" ::
      bodyLayout (depth + 1) body ++ [.line depth, .text "end"]
  | .invoked body =>
    .text "(function()" :: bodyLayout (depth + 1) body ++ [.line depth, .text "end)()"]

/-- The arguments of a call, separated by commas. -/
def argsLayout (depth : Nat) : List Expr → Layout
  | [] => []
  | [e] => e.layout depth
  | e :: rest => e.layout depth ++ .text ", " :: argsLayout depth rest

/-- The fields of a table, separated by commas. -/
def fieldsLayout (multiline isFirst : Bool) (depth : Nat) : List Field → Layout
  | [] => []
  | .named name e :: rest =>
    fieldLead multiline isFirst depth ++ .text name :: .text " = " ::
      e.layout (if multiline then depth + 1 else depth) ++
        fieldsLayout multiline false depth rest
  | .positional e :: rest =>
    fieldLead multiline isFirst depth ++
      e.layout (if multiline then depth + 1 else depth) ++
        fieldsLayout multiline false depth rest

/-- The layout of a statement on a line nested `depth` levels deep. -/
def Stmt.layout (depth : Nat) : Stmt → Layout
  | .declare name none => [.text "local ", .text name]
  | .declare name (some value) =>
    .text "local " :: .text name :: .text " = " :: value.layout depth
  | .assign target value => target.layout depth ++ .text " = " :: value.layout depth
  | .run e => e.layout depth
  | .branch arms otherwise =>
    armsLayout true depth arms ++ elseLayout depth otherwise ++ [.text "end"]
  | .forIn vars iter body =>
    .text "for " :: commaSeparated vars :: .text " in " :: iter.layout depth ++
      .text " do" :: bodyLayout (depth + 1) body ++ [.line depth, .text "end"]
  | .ret none => [.text "return"]
  | .ret (some value) => .text "return" :: .text " " :: value.layout depth
  | .leave => [.text "break"]
  | .define name params body =>
    .text "function " :: .text name :: .text "(" :: commaSeparated params :: .text ")" ::
      bodyLayout (depth + 1) body ++ [.line depth, .text "end"]

/-- The arms of a branch, each with its block and the break after it. -/
def armsLayout (isFirst : Bool) (depth : Nat) : List Arm → Layout
  | [] => []
  | .mk condition body :: rest =>
    .text (if isFirst then "if " else "elseif ") :: condition.layout depth ++
      .text " then" :: bodyLayout (depth + 1) body ++
        .line depth :: armsLayout false depth rest

/-- The last alternative of a branch. -/
def elseLayout (depth : Nat) : Option (List Stmt) → Layout
  | none => []
  | some body => .text "else" :: bodyLayout (depth + 1) body ++ [.line depth]

/-- The statements of a nested block, each on a line of its own. -/
def bodyLayout (depth : Nat) : List Stmt → Layout
  | [] => []
  | stmt :: rest => .line depth :: stmt.layout depth ++ bodyLayout depth rest

end

/-- The layout of a block that is not nested: no break before the first statement. -/
def Block.layout : Block → Layout
  | [] => []
  | stmt :: rest => stmt.layout 0 ++ bodyLayout 0 rest

/-! ### Texts -/

/-- The text of an expression, at `width` blanks a level. -/
def Expr.render (width : Nat) (e : Expr) : String := (e.layout 0).toText width

/-- The text of a block, one statement a line, without a break at its end. -/
def Block.render (width : Nat) (block : Block) : String := (Block.layout block).toText width

end JokerScript.Lua
