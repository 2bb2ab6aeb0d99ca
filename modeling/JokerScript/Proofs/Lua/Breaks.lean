import JokerScript.Proofs.Lua.ShortString
import JokerScript.Proofs.Number.ReadBack

/-!
# Line Breaks of Expressions

Before a table is laid out, a walk over its values foresees whether one of them breaks the line,
and the table is spread over lines just then. The walk looks for functions alone. The text has no
other source of line breaks but the names in it, which are written as they are: operators and
numerals have none, and a string escapes those it holds.

Inside a function, names make no difference, since it breaks the line in any case. So the walk is
right if the **outer names** of an expression have no line break, those outside its functions.

## Main definitions

* `Lua.Layout.breaks` — does the text of a layout have a line break?
* `Lua.Expr.outerNames` — the names in an expression outside its functions.

## Main results

* `Lua.Layout.newline_mem_toText_iff` — the width of a level makes no difference.
* `Lua.Expr.newline_mem_render_iff` — where the line breaks of a text come from.
* `Lua.Expr.isMultiline_iff_newline_mem_render` — the walk foresees the line breaks of the text.
-/

namespace JokerScript

namespace Lua

/-! ### Texts and layouts -/

/-- Is there a line break in the text? -/
def hasNewline (s : String) : Bool := s.toList.contains '\n'

theorem hasNewline_iff {s : String} : hasNewline s = true ↔ '\n' ∈ s.toList :=
  List.contains_iff_mem

theorem hasNewline_eq_false {s : String} (h : '\n' ∉ s.toList) : hasNewline s = false := by
  rw [← Bool.not_eq_true, hasNewline_iff]
  exact h

/-- Does the text of the piece have a line break? -/
def Piece.breaks : Piece → Bool
  | text s => hasNewline s
  | line _ => true

namespace Layout

/-- Does the text of the layout have a line break? -/
def breaks (layout : Layout) : Bool := layout.any Piece.breaks

/-- **The width of a level makes no difference** to whether a text has line breaks. -/
theorem newline_mem_toText_iff (layout : Layout) (width : ℕ) :
    '\n' ∈ (layout.toText width).toList ↔ layout.breaks = true := by
  have hpiece : ∀ piece : Piece, '\n' ∈ piece.chars width ↔ piece.breaks = true := by
    intro piece
    cases piece with
    | text s => exact hasNewline_iff.symm
    | line depth => exact iff_of_true List.mem_cons_self rfl
  rw [toText, String.toList_ofList, List.mem_flatMap, breaks, List.any_eq_true]
  exact exists_congr fun piece => and_congr_right fun _ => hpiece piece

theorem breaks_text (s : String) (layout : Layout) :
    breaks (.text s :: layout) = (hasNewline s || breaks layout) := rfl

theorem breaks_mark {s : String} (h : hasNewline s = false) (layout : Layout) :
    breaks (.text s :: layout) = breaks layout := by
  rw [breaks_text, h, Bool.false_or]

theorem breaks_append (a b : Layout) : breaks (a ++ b) = (breaks a || breaks b) :=
  List.any_append

theorem breaks_enclosed {s t : String} (hs : hasNewline s = false) (ht : hasNewline t = false)
    (layout : Layout) : breaks (.text s :: layout ++ [.text t]) = breaks layout := by
  rw [List.cons_append, breaks_mark hs, breaks_append, breaks_mark ht]
  exact Bool.or_false _

/-- A layout that ends with a closing mark on a line of its own. -/
theorem breaks_closed (layout : Layout) (depth : ℕ) (s : String) :
    breaks (layout ++ [.line depth, .text s]) = true := by
  rw [breaks_append]
  exact Bool.or_true _

theorem breaks_wrapped (wrap : Bool) (layout : Layout) :
    breaks (layout.wrapped wrap) = breaks layout := by
  cases wrap with
  | false => rfl
  | true => exact breaks_enclosed rfl rfl layout

end Layout

/-! ### Texts without line breaks -/

theorem hasNewline_unarySymbol (op : UnaryOp) : hasNewline op.symbol = false := by
  cases op <;> rfl

theorem hasNewline_binarySymbol (op : BinaryOp) : hasNewline op.symbol = false := by
  cases op <;> rfl

/-- The characters of a numeral for a finite number. -/
theorem isDigit_or_mem_of_mem_numeral {n : Number} (hfinite : n.isFinite = true) {c : Char}
    (hc : c ∈ (numeral n).toList) : c.isDigit = true ∨ c ∈ ['.', '-'] := by
  have htext : c ∈ n.text.toList → c.isDigit = true ∨ c ∈ ['.', '-'] := by
    rw [Number.text, String.toList_ofList]
    exact Number.isDigit_or_mem_of_mem_chars hfinite
  rw [numeral, Number.isNaN_of_isFinite hfinite, if_neg Bool.false_ne_true, hfinite,
    Bool.not_true, if_neg Bool.false_ne_true] at hc
  cases hwhole : n.whole? with
  | none =>
      rw [hwhole] at hc
      exact htext hc
  | some magnitude =>
      simp only [hwhole] at hc
      split at hc
      · rw [String.toList_ofList, List.mem_append] at hc
        rcases hc with hc | hc
        · split at hc
          · exact .inr (List.mem_cons_of_mem _ hc)
          · cases hc
        · exact .inl (isDigit_of_mem_digitChars hc)
      · exact htext hc

theorem hasNewline_numeral (n : Number) : hasNewline (numeral n) = false := by
  cases hfinite : n.isFinite with
  | true =>
      refine hasNewline_eq_false fun hmem => ?_
      rcases isDigit_or_mem_of_mem_numeral hfinite hmem with h | h
      · cases h
      · simp at h
  | false =>
      rw [numeral, hfinite]
      split
      · rfl
      · rw [Bool.not_false, if_pos rfl]
        cases n.negative <;> rfl

/-- **A string brings no line break**, whatever it holds. -/
theorem hasNewline_quote (s : String) : hasNewline (quote s) = false := by
  refine hasNewline_eq_false fun hmem => ?_
  rw [quote, String.toList_ofList, List.mem_append, List.mem_cons, List.mem_flatMap] at hmem
  rcases hmem with (h | ⟨c, -, hc⟩) | h
  · cases h
  · exact notMem_escapeChar_of_lineBreak (.inl rfl) c hc
  · simp at h

/-! ### Line breaks of the parts -/

section Parts

variable (depth : ℕ)

theorem breaks_layout_binary (op : BinaryOp) (l r : Expr) :
    ((Expr.binary op l r).layout depth).breaks =
      ((l.layout depth).breaks || (r.layout depth).breaks) := by
  rw [Expr.layout, Layout.breaks_append, Layout.breaks_wrapped, Layout.breaks_mark rfl,
    Layout.breaks_mark (hasNewline_binarySymbol op), Layout.breaks_mark rfl,
    Layout.breaks_wrapped]

theorem breaks_layout_call (callee : Expr) (args : List Expr) :
    ((Expr.call callee args).layout depth).breaks =
      ((callee.layout depth).breaks || (argsLayout depth args).breaks) := by
  rw [Expr.layout, List.append_assoc, Layout.breaks_append, Layout.breaks_wrapped,
    Layout.breaks_enclosed rfl rfl]

theorem breaks_layout_method (receiver : Expr) (name : String) (args : List Expr) :
    ((Expr.method receiver name args).layout depth).breaks =
      ((receiver.layout depth).breaks || (hasNewline name || (argsLayout depth args).breaks)) := by
  rw [Expr.layout, List.append_assoc, Layout.breaks_append, Layout.breaks_wrapped,
    List.cons_append, List.cons_append, Layout.breaks_mark rfl, Layout.breaks_text,
    Layout.breaks_enclosed rfl rfl]

theorem breaks_layout_function (params : List String) (body : Block) :
    ((Expr.function params body).layout depth).breaks = true :=
  Layout.breaks_closed _ depth "end"

theorem breaks_layout_invoked (body : Block) :
    ((Expr.invoked body).layout depth).breaks = true :=
  Layout.breaks_closed _ depth "end)()"

theorem breaks_layout_table (fields : List Field) :
    ((Expr.table fields).layout depth).breaks =
      (anyFieldMultiline fields || (fieldsLayout false true depth fields).breaks) := by
  rw [Expr.layout]
  -- Spread over lines, a table has a break before its closing brace, whatever its values are.
  cases anyFieldMultiline fields with
  | true =>
      rw [if_pos rfl, List.append_assoc]
      exact Layout.breaks_closed _ depth "\x7d"
  | false =>
      rw [if_neg Bool.false_ne_true, List.append_nil, Layout.breaks_enclosed rfl rfl]
      rfl

theorem breaks_argsLayout_cons (e : Expr) (rest : List Expr) :
    (argsLayout depth (e :: rest)).breaks =
      ((e.layout depth).breaks || (argsLayout depth rest).breaks) := by
  cases rest with
  | nil => exact (Bool.or_false _).symm
  | cons a rest =>
      rw [argsLayout, Layout.breaks_append, Layout.breaks_mark rfl]
      exact List.cons_ne_nil a rest

theorem breaks_fieldLead (isFirst : Bool) : (fieldLead false isFirst depth).breaks = false := by
  cases isFirst <;> rfl

theorem breaks_fieldsLayout_named (isFirst : Bool) (name : String) (e : Expr)
    (rest : List Field) :
    (fieldsLayout false isFirst depth (.named name e :: rest)).breaks =
      (hasNewline name || (e.layout depth).breaks ||
        (fieldsLayout false false depth rest).breaks) := by
  rw [fieldsLayout, Layout.breaks_append, Layout.breaks_append, breaks_fieldLead, Bool.false_or,
    Layout.breaks_text, Layout.breaks_mark rfl]
  rfl

theorem breaks_fieldsLayout_positional (isFirst : Bool) (e : Expr) (rest : List Field) :
    (fieldsLayout false isFirst depth (.positional e :: rest)).breaks =
      ((e.layout depth).breaks || (fieldsLayout false false depth rest).breaks) := by
  rw [fieldsLayout, Layout.breaks_append, Layout.breaks_append, breaks_fieldLead, Bool.false_or]
  rfl

end Parts

/-! ### Names -/

mutual

/-- **The outer names of an expression**: its paths and the names of its methods and fields, but
for those that stand inside a function. -/
def Expr.outerNames : Expr → List String
  | .nil | .bool _ | .number _ | .str _ => []
  | .path p => [p]
  | .unary _ e => e.outerNames
  | .binary _ l r => l.outerNames ++ r.outerNames
  | .call callee args => callee.outerNames ++ argOuterNames args
  | .method receiver name args => receiver.outerNames ++ name :: argOuterNames args
  | .table fields => fieldOuterNames fields
  | .function .. | .invoked _ => []

/-- The outer names of arguments. -/
def argOuterNames : List Expr → List String
  | [] => []
  | e :: rest => e.outerNames ++ argOuterNames rest

/-- The outer names of the fields of a table, with the names of the fields. -/
def fieldOuterNames : List Field → List String
  | [] => []
  | .named name e :: rest => name :: e.outerNames ++ fieldOuterNames rest
  | .positional e :: rest => e.outerNames ++ fieldOuterNames rest

end

/-! ### Trees -/

/-- What is foreseen of two parts, and the names in them, part by part. -/
theorem or_any_append (foreseen foreseen' : Bool) (names names' : List String) :
    ((foreseen || foreseen') || (names ++ names').any hasNewline) =
      ((foreseen || names.any hasNewline) || (foreseen' || names'.any hasNewline)) := by
  rw [List.any_append]
  ac_rfl

mutual

/-- **Where the line breaks of an expression come from**, at every depth. The induction is on the
tree. -/
theorem Expr.breaks_layout (depth : ℕ) : ∀ e : Expr,
    (e.layout depth).breaks = (e.isMultiline || e.outerNames.any hasNewline)
  | .nil => rfl
  | .bool b => by cases b <;> rfl
  | .number n => Layout.breaks_mark (hasNewline_numeral n) []
  | .str s => Layout.breaks_mark (hasNewline_quote s) []
  | .path p => rfl
  | .unary op e => by
    rw [Expr.layout, Layout.breaks_mark (hasNewline_unarySymbol op), Layout.breaks_wrapped,
      e.breaks_layout depth, Expr.isMultiline, Expr.outerNames]
  | .binary op l r => by
    rw [breaks_layout_binary, l.breaks_layout depth, r.breaks_layout depth, Expr.isMultiline,
      Expr.outerNames, or_any_append]
  | .call callee args => by
    rw [breaks_layout_call, callee.breaks_layout depth, breaks_argsLayout depth args,
      Expr.isMultiline, Expr.outerNames, or_any_append]
  | .method receiver name args => by
    rw [breaks_layout_method, receiver.breaks_layout depth, breaks_argsLayout depth args,
      Expr.isMultiline, Expr.outerNames, or_any_append, List.any_cons,
      Bool.or_left_comm (hasNewline name)]
  | .table fields => by
    rw [breaks_layout_table, breaks_fieldsLayout depth true fields, Expr.isMultiline,
      Expr.outerNames, ← Bool.or_assoc, Bool.or_self]
  | .function params body => breaks_layout_function depth params body
  | .invoked body => breaks_layout_invoked depth body

theorem breaks_argsLayout (depth : ℕ) : ∀ args : List Expr,
    (argsLayout depth args).breaks = (anyMultiline args || (argOuterNames args).any hasNewline)
  | [] => rfl
  | e :: rest => by
    rw [breaks_argsLayout_cons, e.breaks_layout depth, breaks_argsLayout depth rest,
      anyMultiline, argOuterNames, or_any_append]

theorem breaks_fieldsLayout (depth : ℕ) (isFirst : Bool) : ∀ fields : List Field,
    (fieldsLayout false isFirst depth fields).breaks =
      (anyFieldMultiline fields || (fieldOuterNames fields).any hasNewline)
  | [] => rfl
  | .named name e :: rest => by
    rw [breaks_fieldsLayout_named, e.breaks_layout depth, breaks_fieldsLayout depth false rest,
      anyFieldMultiline, fieldOuterNames, or_any_append, List.any_cons,
      Bool.or_left_comm (hasNewline name)]
  | .positional e :: rest => by
    rw [breaks_fieldsLayout_positional, e.breaks_layout depth,
      breaks_fieldsLayout depth false rest, anyFieldMultiline, fieldOuterNames, or_any_append]

end

namespace Expr

/-- **Where the line breaks of a text come from**: from functions, and from names outside them. -/
theorem newline_mem_render_iff (e : Expr) (width : ℕ) :
    '\n' ∈ (e.render width).toList ↔
      e.isMultiline = true ∨ ∃ name ∈ e.outerNames, '\n' ∈ name.toList := by
  rw [render, Layout.newline_mem_toText_iff, e.breaks_layout, Bool.or_eq_true, List.any_eq_true]
  simp only [hasNewline_iff]

/-- **The walk over an expression foresees the line breaks of its text.** However deep operators,
calls, tables and functions are nested, and however wide the text is indented, it has a line break
just where the walk says so, if the names outside functions have none. -/
theorem isMultiline_iff_newline_mem_render {e : Expr}
    (hnames : ∀ name ∈ e.outerNames, '\n' ∉ name.toList) (width : ℕ) :
    e.isMultiline = true ↔ '\n' ∈ (e.render width).toList := by
  have hnone : ¬∃ name ∈ e.outerNames, '\n' ∈ name.toList := by
    rintro ⟨name, hname, hnewline⟩
    exact hnames name hname hnewline
  rw [newline_mem_render_iff, or_iff_left hnone]

/-- The call `G.E_MANAGER:add_event(Event({label = "one\ntwo", func = function() ... end}))`. -/
def labelledEvent : Expr :=
  .method (.path "G.E_MANAGER") "add_event"
    [.apply "Event"
      [.table [.named "label" (.str "one\ntwo"),
        .named "func" (.thunk [.returning (.bool true)])]]]

theorem isMultiline_iff_newline_mem_render_labelledEvent :
    (∀ name ∈ labelledEvent.outerNames, '\n' ∉ name.toList) ∧
      (labelledEvent.isMultiline = true ↔ '\n' ∈ (labelledEvent.render 4).toList) := by
  have hnames : ∀ name ∈ labelledEvent.outerNames, '\n' ∉ name.toList := by decide +kernel
  exact ⟨hnames, isMultiline_iff_newline_mem_render hnames 4⟩

/-- A name is written as it is, and the walk passes over it. -/
example : (path "a\nb").isMultiline = false ∧ '\n' ∈ ((path "a\nb").render 4).toList := by
  decide +kernel

end Expr

end Lua

end JokerScript
