import JokerScript.Proofs.Lua.State
import JokerScript.Proofs.Lua.Token
import JokerScript.Proofs.Number.ReadBack

/-!
# The Tokens of Expressions

The text of an expression is read as the tokens that its tree spells: no two tokens run
together, and no two minus signs begin a comment. This holds for **plain** expressions: no
functions, names that are identifiers, and numbers that have a numeral without a sign.

## Main definitions

* `Lua.Expr.Plain` — the expressions whose text is read back.
* `Lua.Expr.tokens` — the tokens of an expression, with the parentheses it needs.

## Main results

* `Lua.isDecimal_numeral` — the numeral of a number is a decimal.
* `Lua.Expr.Plain.lexes` — the text of a plain expression is just its tokens.
-/

namespace JokerScript

/-! ### Numerals -/

/-- A decimal without an exponent is made of digits and at most one point. -/
theorem Decimal.isDecimal_positional (d : Decimal) : Lua.IsDecimal d.positional := by
  obtain ⟨whole, fraction, hne, hwhole, hfraction, htext, -⟩ := d.exists_positional_eq
  exact ⟨whole, fraction, hne, hwhole, hfraction, htext.imp_left And.left⟩

namespace Lua

/-- The numeral of a finite number without a sign is a decimal. -/
theorem isDecimal_numeral {n : Number} (hfinite : n.isFinite = true) (hsign : n.negative = false) :
    IsDecimal (numeral n).toList := by
  have htext : IsDecimal n.text.toList := by
    have hchars : n.text.toList = (n.shortest .up).positional := by
      rw [Number.text, String.toList_ofList, Number.chars_of_isFinite hfinite, Number.signChars,
        hsign, if_neg Bool.false_ne_true, List.nil_append]
    rw [hchars]
    exact Decimal.isDecimal_positional _
  rw [numeral, Number.isNaN_of_isFinite hfinite, if_neg Bool.false_ne_true, hfinite,
    Bool.not_true, if_neg Bool.false_ne_true]
  cases n.whole? with
  | none => exact htext
  | some magnitude =>
      by_cases hsmall : magnitude < 1000000000000000
      · simp only [if_pos hsmall, hsign, Bool.false_and, Bool.false_eq_true, if_false,
          List.nil_append, String.toList_ofList]
        exact ⟨_, [], Nat.toDigits_ne_nil,
          fun c hc => Nat.isDigit_of_mem_toDigits (by omega) (by omega) hc,
          List.forall_mem_nil _, Or.inl rfl⟩
      · simp only [if_neg hsmall]
        exact htext

/-! ### Paths -/

theorem toList_splitAt (sep : Char) (cs : List Char) :
    cs = (splitAt sep cs).1 ++ (splitAt sep cs).2.flatMap (sep :: ·) := by
  induction cs with
  | nil => rfl
  | cons c cs ih =>
      rw [splitAt]
      by_cases hc : c = sep
      · simp only [if_pos hc, List.nil_append, List.flatMap_cons, List.cons_append]
        rw [← ih, hc]
      · simp only [if_neg hc, List.cons_append]
        rw [← ih]

/-- A path is its variable and its fields, with dots between them. -/
theorem path_toList (p : String) :
    p.toList = (pathRoot p).toList ++ (pathFields p).flatMap fun x => '.' :: x.toList := by
  simp only [pathRoot, pathFields, String.toList_ofList, List.flatMap_map]
  exact toList_splitAt '.' p.toList

/-- The tokens of the fields of a path. -/
def fieldTokens (fields : List String) : List Token := fields.flatMap fun x => [.dot, .name x]

theorem lexes_path {x : String} (hx : isIdentifier x = true) {fields : List String}
    (hfields : ∀ y ∈ fields, isIdentifier y = true) :
    Lexes (x.toList ++ fields.flatMap fun y => '.' :: y.toList)
      (.name x :: fieldTokens fields) := by
  induction fields generalizing x with
  | nil =>
      rw [List.flatMap_nil, List.append_nil]
      exact lexes_identifier hx
  | cons y fields ih =>
      have hy := hfields y List.mem_cons_self
      have hrest := ih hy fun z hz => hfields z (List.mem_cons_of_mem _ hz)
      intro rest hends
      have hafter := hrest rest hends
      rw [List.append_assoc] at hafter
      rw [List.flatMap_cons, List.append_assoc, List.append_assoc, List.cons_append,
        lex_identifier hx, lex_dot hy, hafter, map_append_map, map_append_map]
      · rfl
      · intro c hc
        obtain rfl := Option.some.inj hc
        rfl

/-! ### Plain expressions -/

/-- The name of a field of a table, if it has one. -/
def Field.name? : Field → Option String
  | named name _ => some name
  | positional _ => none

/-- The value of a field of a table. -/
def Field.value : Field → Expr
  | named _ e => e
  | positional e => e

/-- A **plain expression** holds no function, its names are identifiers, and its numbers are
finite and carry no sign. Anything may stand in a string. -/
inductive Expr.Plain : Expr → Prop
  | nil : Plain .nil
  | bool (b : Bool) : Plain (.bool b)
  | number {n : Number} (hfinite : n.isFinite = true) (hsign : n.negative = false) :
      Plain (.number n)
  | str (s : String) : Plain (.str s)
  | path {p : String} (hroot : isIdentifier (pathRoot p) = true)
      (hfields : ∀ x ∈ pathFields p, isIdentifier x = true) : Plain (.path p)
  | unary (op : UnaryOp) {e : Expr} (h : Plain e) : Plain (.unary op e)
  | binary (op : BinaryOp) {l r : Expr} (hl : Plain l) (hr : Plain r) : Plain (.binary op l r)
  | call {callee : Expr} {args : List Expr} (h : Plain callee) (hargs : ∀ e ∈ args, Plain e) :
      Plain (.call callee args)
  | method {receiver : Expr} {name : String} {args : List Expr} (h : Plain receiver)
      (hname : isIdentifier name = true) (hargs : ∀ e ∈ args, Plain e) :
      Plain (.method receiver name args)
  | table {fields : List Field} (hnames : ∀ f ∈ fields, ∀ x ∈ f.name?, isIdentifier x = true)
      (hvalues : ∀ f ∈ fields, Plain f.value) : Plain (.table fields)

/-! ### Tokens -/

/-- The tokens between parentheses if `wrap` holds. -/
def wrapTokens (wrap : Bool) (ts : List Token) : List Token :=
  if wrap then .openParen :: ts ++ [.closeParen] else ts

mutual

/-- **The tokens of an expression.** A function is not plain and has none here. -/
def Expr.tokens : Expr → List Token
  | .nil => [.nil]
  | .bool b => [.bool b]
  | .number n => [.numeral (numeral n)]
  | .str s => [.str s]
  | .path p => .name (pathRoot p) :: fieldTokens (pathFields p)
  | .unary op e => op.token :: wrapTokens (e.wrapsUnder op) e.tokens
  | .binary op l r =>
    wrapTokens (l.wrapsBeside op false) l.tokens ++
      .binary op :: wrapTokens (r.wrapsBeside op true) r.tokens
  | .call callee args =>
    wrapTokens callee.wrapsAsCallee callee.tokens ++ .openParen :: argsTokens args ++ [.closeParen]
  | .method receiver name args =>
    wrapTokens receiver.wrapsAsCallee receiver.tokens ++
      .colon :: .name name :: .openParen :: argsTokens args ++ [.closeParen]
  | .table fields => .openBrace :: fieldsTokens fields ++ [.closeBrace]
  | .function .. | .invoked _ => []

/-- The tokens of arguments, with the commas between them. -/
def argsTokens : List Expr → List Token
  | [] => []
  | [e] => e.tokens
  | e :: rest => e.tokens ++ .comma :: argsTokens rest

/-- The tokens of the fields of a table, with the commas between them. -/
def fieldsTokens : List Field → List Token
  | [] => []
  | [f] => f.tokens
  | f :: rest => f.tokens ++ .comma :: fieldsTokens rest

/-- The tokens of a field. -/
def Field.tokens : Field → List Token
  | .named name e => .name name :: .equals :: e.tokens
  | .positional e => e.tokens

end

section Calls

variable (callee receiver : Expr) (name : String) (args : List Expr) (depth : ℕ)

theorem Expr.layout_call : (Expr.call callee args).layout depth =
    (callee.layout depth).wrapped callee.wrapsAsCallee ++
      .text "(" :: argsLayout depth args ++ [.text ")"] := rfl

theorem Expr.layout_method : (Expr.method receiver name args).layout depth =
    (receiver.layout depth).wrapped receiver.wrapsAsCallee ++
      .text ":" :: .text name :: .text "(" :: argsLayout depth args ++ [.text ")"] := rfl

theorem Expr.tokens_call : (Expr.call callee args).tokens =
    wrapTokens callee.wrapsAsCallee callee.tokens ++
      .openParen :: argsTokens args ++ [.closeParen] := rfl

theorem Expr.tokens_method : (Expr.method receiver name args).tokens =
    wrapTokens receiver.wrapsAsCallee receiver.tokens ++
      .colon :: .name name :: .openParen :: argsTokens args ++ [.closeParen] := rfl

end Calls

/-! ### Characters of layouts -/

namespace Layout

/-- The characters of a layout, at `width` blanks a level. -/
def chars (width : ℕ) (layout : Layout) : List Char := layout.flatMap (Piece.chars width)

variable {width : ℕ}

@[simp] theorem chars_nil : chars width [] = [] := rfl

@[simp] theorem chars_text (s : String) (layout : Layout) :
    chars width (.text s :: layout) = s.toList ++ chars width layout := rfl

@[simp] theorem chars_append (a b : Layout) :
    chars width (a ++ b) = chars width a ++ chars width b := List.flatMap_append

/-- A layout that is one piece of text. -/
theorem lexes_text {s : String} {ts : List Token} (h : Lexes s.toList ts) :
    Lexes (chars width [.text s]) ts := by
  rw [chars_text, chars_nil, List.append_nil]
  exact h

/-- Parentheses are tokens of their own. -/
theorem lexes_wrapped {layout : Layout} {ts : List Token} (wrap : Bool)
    (h : Lexes (layout.chars width) ts) :
    Lexes ((layout.wrapped wrap).chars width) (wrapTokens wrap ts) := by
  cases wrap with
  | false => exact h
  | true =>
      have hchars : (layout.wrapped true).chars width = '(' :: layout.chars width ++ [')'] := by
        simp [wrapped]
      rw [hchars]
      exact h.parens.lexes

end Layout

/-! ### Line breaks -/

theorem anyMultiline_eq_false {args : List Expr} (h : ∀ e ∈ args, e.isMultiline = false) :
    anyMultiline args = false := by
  induction args with
  | nil => rfl
  | cons e rest ih =>
      rw [anyMultiline, h e List.mem_cons_self, ih fun a ha => h a (List.mem_cons_of_mem _ ha)]
      rfl

theorem anyFieldMultiline_eq_false {fields : List Field}
    (h : ∀ f ∈ fields, f.value.isMultiline = false) : anyFieldMultiline fields = false := by
  induction fields with
  | nil => rfl
  | cons f rest ih =>
      have hf := h f List.mem_cons_self
      have hrest := ih fun g hg => h g (List.mem_cons_of_mem _ hg)
      cases f with
      | named name e => rw [anyFieldMultiline, hrest, Bool.or_false, ← hf, Field.value]
      | positional e => rw [anyFieldMultiline, hrest, Bool.or_false, ← hf, Field.value]

/-- Only functions break the line. -/
theorem Expr.Plain.isMultiline_eq_false {e : Expr} (h : e.Plain) : e.isMultiline = false := by
  induction h with
  | nil | bool | number | str | path => rfl
  | unary op _ ih => rw [isMultiline, ih]
  | binary op _ _ ihl ihr =>
      rw [isMultiline, ihl, ihr]
      rfl
  | call _ _ ih ihargs =>
      rw [isMultiline, ih, anyMultiline_eq_false ihargs]
      rfl
  | method _ _ _ ih ihargs =>
      rw [isMultiline, ih, anyMultiline_eq_false ihargs]
      rfl
  | table _ _ ih => rw [isMultiline, anyFieldMultiline_eq_false ih]

/-! ### Minus signs -/

/-- The piece is not empty and begins with something else than a minus sign. -/
def BeginsUnsigned (cs : List Char) : Prop := ∃ c rest, cs = c :: rest ∧ c ≠ '-'

theorem BeginsUnsigned.append {cs : List Char} (h : BeginsUnsigned cs) (ds : List Char) :
    BeginsUnsigned (cs ++ ds) := by
  obtain ⟨c, rest, rfl, hc⟩ := h
  exact ⟨c, rest ++ ds, rfl, hc⟩

theorem BeginsUnsigned.wrapped {width : ℕ} {layout : Layout} {wrap : Bool}
    (h : wrap = false → BeginsUnsigned (layout.chars width)) :
    BeginsUnsigned ((layout.wrapped wrap).chars width) := by
  cases wrap with
  | false => exact h rfl
  | true => exact ⟨'(', _, rfl, by simp⟩

theorem beginsUnsigned_identifier {x : String} (h : isIdentifier x = true) :
    BeginsUnsigned x.toList := by
  obtain ⟨c, cs, hlist, hstart⟩ := exists_toList_of_isIdentifier h
  refine ⟨c, cs, hlist, ?_⟩
  rintro rfl
  cases hstart

theorem IsDecimal.beginsUnsigned {cs : List Char} (h : IsDecimal cs) : BeginsUnsigned cs := by
  obtain ⟨whole, fraction, hne, hwhole, -, hcs⟩ := h
  obtain ⟨c, whole, rfl⟩ := List.exists_cons_of_ne_nil hne
  have hc : c ≠ '-' := by
    rintro rfl
    cases hwhole '-' List.mem_cons_self
  rcases hcs with rfl | rfl
  · exact ⟨c, whole, rfl, hc⟩
  · exact ⟨c, whole ++ '.' :: fraction, rfl, hc⟩

theorem Expr.wrapsUnder_of_not_wrapsAsCallee {e : Expr} (h : e.wrapsAsCallee = false)
    (op : UnaryOp) : e.wrapsUnder op = false := by
  cases e <;> first | rfl | cases h

/-- An operand that needs no parentheses after a minus sign does not begin with another
one. -/
theorem Expr.Plain.beginsUnsigned {e : Expr} (h : e.Plain) (hwraps : e.wrapsUnder .neg = false)
    (width depth : ℕ) : BeginsUnsigned ((e.layout depth).chars width) := by
  induction h with
  | nil => exact ⟨'n', _, rfl, by simp⟩
  | bool b =>
      cases b with
      | false => exact ⟨'f', _, rfl, by simp⟩
      | true => exact ⟨'t', _, rfl, by simp⟩
  | number hfinite hsign => exact (isDecimal_numeral hfinite hsign).beginsUnsigned.append []
  | str s =>
      have hquote : BeginsUnsigned (quote s).toList :=
        ⟨'"', s.toList.flatMap escapeChar ++ ['"'], by simp [quote], by simp⟩
      exact hquote.append []
  | @path p hroot hfields =>
      have hp : BeginsUnsigned p.toList := by
        rw [path_toList p]
        exact (beginsUnsigned_identifier hroot).append _
      exact hp.append []
  | unary op _ _ =>
      cases op with
      | not => exact ⟨'n', _, rfl, by simp⟩
      | neg => cases hwraps
      | len => exact ⟨'#', _, rfl, by simp⟩
  | binary => cases hwraps
  | call _ _ ih _ =>
      rw [layout_call, Layout.chars_append, Layout.chars_append, List.append_assoc]
      exact (BeginsUnsigned.wrapped fun hcallee =>
        ih (wrapsUnder_of_not_wrapsAsCallee hcallee .neg)).append _
  | method _ _ _ ih _ =>
      rw [layout_method, Layout.chars_append, Layout.chars_append, List.append_assoc]
      exact (BeginsUnsigned.wrapped fun hreceiver =>
        ih (wrapsUnder_of_not_wrapsAsCallee hreceiver .neg)).append _
  | table => exact ⟨'\x7b', _, rfl, by simp⟩

/-! ### Texts of lists -/

section Lists

variable {width depth : ℕ}

theorem lexes_args {args : List Expr}
    (h : ∀ e ∈ args, Lexes ((e.layout depth).chars width) e.tokens) :
    Lexes ((argsLayout depth args).chars width) (argsTokens args) := by
  induction args with
  | nil => exact LexesFreely.nil.lexes
  | cons e rest ih =>
      have he := h e List.mem_cons_self
      have hrest := ih fun a ha => h a (List.mem_cons_of_mem _ ha)
      cases rest with
      | nil => exact he
      | cons a rest =>
          have hchars : (argsLayout depth (e :: a :: rest)).chars width =
              (e.layout depth).chars width ++
                (", ".toList ++ (argsLayout depth (a :: rest)).chars width) := by
            simp [argsLayout]
          have hapart : BeginsApart (", ".toList ++ (argsLayout depth (a :: rest)).chars width) :=
            ⟨',', _, rfl, rfl, by simp⟩
          rw [hchars]
          exact he.append hapart (lexesFreely_comma.append_lexes hrest)

/-- The layout of a field that stands on the line of its table. -/
def Field.layout (depth : ℕ) : Field → Layout
  | named name e => .text name :: .text " = " :: e.layout depth
  | positional e => e.layout depth

theorem fieldsLayout_cons (f : Field) (rest : List Field) :
    fieldsLayout false true depth (f :: rest) =
      f.layout depth ++ fieldsLayout false false depth rest := by
  cases f <;> rfl

theorem fieldsLayout_of_later (f : Field) (rest : List Field) :
    fieldsLayout false false depth (f :: rest) =
      .text ", " :: fieldsLayout false true depth (f :: rest) := by
  cases f <;> rfl

theorem lexes_field {f : Field} (hname : ∀ x ∈ f.name?, isIdentifier x = true)
    (h : Lexes ((f.value.layout depth).chars width) f.value.tokens) :
    Lexes ((f.layout depth).chars width) f.tokens := by
  cases f with
  | positional e => exact h
  | named name e =>
      have hapart : BeginsApart (" = ".toList ++ (e.layout depth).chars width) :=
        ⟨' ', _, rfl, rfl, by simp⟩
      have hvalue := lexesFreely_equals.append_lexes h
      exact (lexes_identifier (hname name rfl)).append hapart hvalue

theorem lexes_fields {fields : List Field}
    (h : ∀ f ∈ fields, Lexes ((f.layout depth).chars width) f.tokens) :
    Lexes ((fieldsLayout false true depth fields).chars width) (fieldsTokens fields) := by
  induction fields with
  | nil => exact LexesFreely.nil.lexes
  | cons f rest ih =>
      have hf := h f List.mem_cons_self
      have hrest := ih fun g hg => h g (List.mem_cons_of_mem _ hg)
      rw [fieldsLayout_cons, Layout.chars_append]
      cases rest with
      | nil =>
          rw [fieldsLayout, Layout.chars_nil, List.append_nil]
          exact hf
      | cons g rest =>
          have hapart : BeginsApart
              (", ".toList ++ (fieldsLayout false true depth (g :: rest)).chars width) :=
            ⟨',', _, rfl, rfl, by simp⟩
          rw [fieldsLayout_of_later, Layout.chars_text]
          exact hf.append hapart (lexesFreely_comma.append_lexes hrest)

end Lists

/-! ### Texts of expressions -/

section Texts

variable {width depth : ℕ}

theorem lexes_unary (op : UnaryOp) {e : Expr} (he : e.Plain)
    (h : Lexes ((e.layout depth).chars width) e.tokens) :
    Lexes (((Expr.unary op e).layout depth).chars width) (Expr.unary op e).tokens := by
  have hoperand := Layout.lexes_wrapped (e.wrapsUnder op) h
  have hchars : ((Expr.unary op e).layout depth).chars width =
      op.symbol.toList ++ ((e.layout depth).wrapped (e.wrapsUnder op)).chars width := rfl
  rw [hchars]
  cases op with
  | not => exact lexesFreely_not.append_lexes hoperand
  | len =>
      have hhash : ∀ rest, nextToken '#' rest = some (some .hash, rest) := fun _ => rfl
      exact (lexesFreely_symbol hhash).append_lexes hoperand
  | neg =>
      obtain ⟨c, cs, hchars, hc⟩ := BeginsUnsigned.wrapped fun hwraps =>
        he.beginsUnsigned hwraps width depth
      intro rest hrest
      have hafter := hoperand rest hrest
      rw [hchars] at hafter ⊢
      have hminus : lex ('-' :: (c :: cs ++ rest)) =
          (lex (c :: cs ++ rest)).map ([.binary .sub] ++ ·) :=
        lex_minus fun heq => hc (Option.some.inj heq)
      rw [hafter, map_append_map] at hminus
      exact hminus

theorem lexes_binary (op : BinaryOp) {l r : Expr}
    (hl : Lexes ((l.layout depth).chars width) l.tokens)
    (hr : Lexes ((r.layout depth).chars width) r.tokens) :
    Lexes (((Expr.binary op l r).layout depth).chars width) (Expr.binary op l r).tokens := by
  have hleft := Layout.lexes_wrapped (l.wrapsBeside op false) hl
  have hright := Layout.lexes_wrapped (r.wrapsBeside op true) hr
  have hrest := (lexesFreely_operator op).append_lexes hright
  have hchars : ((Expr.binary op l r).layout depth).chars width =
      ((l.layout depth).wrapped (l.wrapsBeside op false)).chars width ++
        (' ' :: op.symbol.toList ++ [' '] ++
          ((r.layout depth).wrapped (r.wrapsBeside op true)).chars width) := by
    have hlayout : (Expr.binary op l r).layout depth =
        (l.layout depth).wrapped (l.wrapsBeside op false) ++ .text " " :: .text op.symbol ::
          .text " " :: (r.layout depth).wrapped (r.wrapsBeside op true) := rfl
    simp [hlayout]
  rw [hchars]
  exact hleft.append ⟨' ', _, rfl, rfl, by simp⟩ hrest

theorem lexes_call {callee : Expr} {args : List Expr}
    (h : Lexes ((callee.layout depth).chars width) callee.tokens)
    (hargs : Lexes ((argsLayout depth args).chars width) (argsTokens args)) :
    Lexes (((Expr.call callee args).layout depth).chars width) (Expr.call callee args).tokens := by
  have hcallee := Layout.lexes_wrapped callee.wrapsAsCallee h
  have hchars : ((Expr.call callee args).layout depth).chars width =
      ((callee.layout depth).wrapped callee.wrapsAsCallee).chars width ++
        ('(' :: (argsLayout depth args).chars width ++ [')']) := by
    simp [Expr.layout_call]
  rw [hchars, Expr.tokens_call, List.append_assoc]
  exact hcallee.append (beginsApart_parens _) hargs.parens.lexes

theorem lexes_method {receiver : Expr} {name : String} {args : List Expr}
    (hname : isIdentifier name = true)
    (h : Lexes ((receiver.layout depth).chars width) receiver.tokens)
    (hargs : Lexes ((argsLayout depth args).chars width) (argsTokens args)) :
    Lexes (((Expr.method receiver name args).layout depth).chars width)
      (Expr.method receiver name args).tokens := by
  have hreceiver := Layout.lexes_wrapped receiver.wrapsAsCallee h
  have happlied := (lexes_identifier hname).append (beginsApart_parens _) hargs.parens.lexes
  have hcolon : Lexes
      (':' :: (name.toList ++ ('(' :: (argsLayout depth args).chars width ++ [')'])))
      (.colon :: .name name :: .openParen :: argsTokens args ++ [.closeParen]) := by
    intro rest hrest
    have hafter := happlied rest hrest
    rw [List.append_assoc] at hafter
    rw [List.cons_append, List.append_assoc, lex_colon hname, hafter, map_append_map]
    rfl
  have hchars : ((Expr.method receiver name args).layout depth).chars width =
      ((receiver.layout depth).wrapped receiver.wrapsAsCallee).chars width ++
        ':' :: (name.toList ++ ('(' :: (argsLayout depth args).chars width ++ [')'])) := by
    simp [Expr.layout_method]
  rw [hchars, Expr.tokens_method, List.append_assoc]
  exact hreceiver.append ⟨':', _, rfl, rfl, by simp⟩ hcolon

theorem lexes_table {fields : List Field}
    (hlines : anyFieldMultiline fields = false)
    (h : Lexes ((fieldsLayout false true depth fields).chars width) (fieldsTokens fields)) :
    Lexes (((Expr.table fields).layout depth).chars width) (Expr.table fields).tokens := by
  have hchars : ((Expr.table fields).layout depth).chars width =
      '\x7b' :: (fieldsLayout false true depth fields).chars width ++ ['\x7d'] := by
    have hlayout : (Expr.table fields).layout depth =
        .text "\x7b" :: fieldsLayout (anyFieldMultiline fields) true depth fields ++
          (if anyFieldMultiline fields then [.line depth] else []) ++ [.text "\x7d"] := rfl
    simp [hlayout, hlines]
  rw [hchars]
  exact h.braces.lexes

end Texts

/-- **The text of a plain expression is just its tokens**, wherever it stands. -/
theorem Expr.Plain.lexes {e : Expr} (h : e.Plain) (width depth : ℕ) :
    Lexes ((e.layout depth).chars width) e.tokens := by
  have hword : ∀ w : String, isNameShape w.toList = true → Lexes w.toList [wordToken w] :=
    fun w hw rest hrest => lex_word hw fun c hc => (hrest c hc).1
  induction h with
  | nil => exact Layout.lexes_text (hword "nil" rfl)
  | bool b =>
      cases b with
      | false => exact Layout.lexes_text (hword "false" rfl)
      | true => exact Layout.lexes_text (hword "true" rfl)
  | @number n hfinite hsign =>
      have hdecimal := lexes_decimal (isDecimal_numeral hfinite hsign)
      rw [String.ofList_toList] at hdecimal
      exact Layout.lexes_text hdecimal
  | str s => exact Layout.lexes_text (lexesFreely_quote s).lexes
  | @path p hroot hfields =>
      have hpath := lexes_path hroot hfields
      rw [← path_toList p] at hpath
      exact Layout.lexes_text hpath
  | unary op h ih => exact lexes_unary op h ih
  | binary op _ _ ihl ihr => exact lexes_binary op ihl ihr
  | call _ _ ih ihargs => exact lexes_call ih (lexes_args ihargs)
  | method _ hname _ ih ihargs => exact lexes_method hname ih (lexes_args ihargs)
  | table hnames hvalues ih =>
      have hfields := lexes_fields fun f hf => lexes_field (hnames f hf) (ih f hf)
      exact lexes_table
        (anyFieldMultiline_eq_false fun f hf => (hvalues f hf).isMultiline_eq_false) hfields

end Lua

end JokerScript
