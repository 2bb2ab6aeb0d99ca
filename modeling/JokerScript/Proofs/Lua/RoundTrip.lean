import JokerScript.Proofs.Lua.Reader
import JokerScript.Proofs.Lua.Spelling

/-!
# Reading Rendered Expressions

A plain expression is read back from its text: the reader finds the tree of the expression,
so the parentheses that are left out change nothing, and those that are written are needed
nowhere else.

An operand without parentheses binds tighter than the operator beside it, on the side where
the operator stands. The **opening** and the **closing** priority of an expression say so: an
operator of lower priority may stand before it and after it.

## Main definitions

* `Lua.Expr.tree` — the tree of an expression.
* `Lua.Expr.opening`, `Lua.Expr.closing` — what an expression binds tighter than.

## Main results

* `Lua.Expr.Plain.reads` — the tokens of a plain expression are read as its tree.
* `Lua.read_render` — so is its text.
-/

namespace JokerScript

namespace Lua

/-! ### Trees of expressions -/

mutual

/-- **The tree of an expression.** A function is not plain, and its tree does not matter. -/
def Expr.tree : Expr → Tree
  | .nil => .nil
  | .bool b => .bool b
  | .number n => .numeral (numeral n)
  | .str s => .str s
  | .path p => (pathFields p).foldl .index (.name (pathRoot p))
  | .unary op e => .unary op e.tree
  | .binary op l r => .binary op l.tree r.tree
  | .call callee args => .call callee.tree (treesOf args)
  | .method receiver name args => .method receiver.tree name (treesOf args)
  | .table fields => .table (fieldTrees fields)
  | .function .. | .invoked _ => .nil

/-- The trees of arguments. -/
def treesOf : List Expr → List Tree
  | [] => []
  | e :: rest => e.tree :: treesOf rest

/-- The names and the trees of the fields of a table. -/
def fieldTrees : List Field → List (Option String × Tree)
  | [] => []
  | f :: rest => f.tree :: fieldTrees rest

/-- The name of a field and the tree of its value. -/
def Field.tree : Field → Option String × Tree
  | .named name e => (some name, e.tree)
  | .positional e => (none, e.tree)

end

/-! ### Priorities of expressions -/

/-- The expression may follow an operator whose right priority is below this one. -/
def Expr.opening : Expr → ℕ
  | binary op .. => op.leftPriority
  | _ => unaryPriority + 1

/-- An operator may follow the expression if its left priority is at most this one. -/
def Expr.closing : Expr → ℕ
  | binary op .. => op.rightPriority
  | _ => unaryPriority + 1

theorem Expr.opening_pos (e : Expr) : 0 < e.opening := by
  cases e with
  | binary op => cases op <;> exact Nat.succ_pos _
  | _ => exact Nat.succ_pos _

/-- Parentheses are left out under a unary operator only around what binds as tightly. -/
theorem Expr.priority_of_not_wrapsUnder {e : Expr} (op : UnaryOp) (h : e.wrapsUnder op = false) :
    unaryPriority < e.opening ∧ unaryPriority ≤ e.closing := by
  cases e with
  | binary => cases h
  | _ => exact ⟨Nat.lt_succ_self _, Nat.le_succ _⟩

namespace BinaryOp

theorem leftPriority_eq (op : BinaryOp) :
    op.leftPriority = if op.precedence < 4 then op.precedence else op.precedence + 1 := by
  cases op <;> rfl

theorem rightPriority_eq (op : BinaryOp) :
    op.rightPriority = if op.precedence ≤ 4 then op.precedence else op.precedence + 1 := by
  cases op <;> rfl

theorem isRightAssoc_eq (op : BinaryOp) : op.isRightAssoc = (op.precedence == 4) := by
  cases op <;> rfl

theorem precedence_le_six (op : BinaryOp) : op.precedence ≤ 6 := by
  cases op <;> simp [precedence]

end BinaryOp

/-- Parentheses are left out beside an operator only around what binds tighter, or as tightly if
the operator groups to the side. -/
theorem Expr.precedence_of_not_wrapsBeside {op op' : BinaryOp} {l r : Expr} {isRight : Bool}
    (h : (binary op' l r).wrapsBeside op isRight = false) :
    op.precedence ≤ op'.precedence ∧
      (op'.precedence = op.precedence → (op.precedence == 4) = isRight) := by
  simp only [wrapsBeside, BinaryOp.isRightAssoc_eq, Bool.or_eq_false_iff,
    decide_eq_false_iff_not, Bool.and_eq_false_iff, beq_eq_false_iff_ne,
    bne_eq_false_iff_eq] at h
  obtain ⟨hle, htie⟩ := h
  exact ⟨Nat.le_of_not_lt hle, fun heq => (htie.resolve_left (absurd heq)).symm⟩

/-- Parentheses are left out before an operator only around what binds tighter, or as
tightly if the operator groups to the left. -/
theorem Expr.priority_of_not_wrapsBeside_left {e : Expr} (op : BinaryOp)
    (h : e.wrapsBeside op false = false) :
    op.leftPriority ≤ e.opening ∧ op.leftPriority ≤ e.closing := by
  have hunary := leftPriority_lt_unaryPriority op
  cases e with
  | binary op' =>
      obtain ⟨hle, htie⟩ := precedence_of_not_wrapsBeside h
      have hstrict : op'.precedence = op.precedence → op.precedence ≠ 4 :=
        fun heq => beq_eq_false_iff_ne.mp (htie heq)
      rw [opening, closing, BinaryOp.leftPriority_eq, BinaryOp.leftPriority_eq op',
        BinaryOp.rightPriority_eq]
      constructor
      · split <;> split <;> omega
      · split <;> split <;> omega
  | _ => exact ⟨Nat.le_succ_of_le (Nat.le_of_lt hunary), Nat.le_succ_of_le (Nat.le_of_lt hunary)⟩

/-- Parentheses are left out after an operator only around what binds tighter, or as
tightly if the operator groups to the right. -/
theorem Expr.priority_of_not_wrapsBeside_right {e : Expr} (op : BinaryOp)
    (h : e.wrapsBeside op true = false) :
    op.rightPriority < e.opening ∧ op.rightPriority ≤ e.closing := by
  have hunary : op.rightPriority < unaryPriority := by
    have hsix := op.precedence_le_six
    rw [BinaryOp.rightPriority_eq, unaryPriority]
    split <;> omega
  cases e with
  | binary op' =>
      obtain ⟨hle, htie⟩ := precedence_of_not_wrapsBeside h
      have hstrict : op'.precedence = op.precedence → op.precedence = 4 :=
        fun heq => eq_of_beq (htie heq)
      rw [opening, closing, BinaryOp.leftPriority_eq, BinaryOp.rightPriority_eq,
        BinaryOp.rightPriority_eq op']
      constructor
      · split <;> split <;> omega
      · split <;> split <;> omega
  | _ => exact ⟨Nat.lt_succ_of_lt hunary, Nat.le_succ_of_le (Nat.le_of_lt hunary)⟩

/-! ### Where fields begin -/

/-- The tokens begin neither with the end of a list nor with the name of a field. -/
def Opens (ts : List Token) : Prop :=
  ∃ t us, ts = t :: us ∧ t ≠ .closeParen ∧ t ≠ .closeBrace ∧
    ∀ x, t = .name x → us.head? ≠ some .equals

theorem Opens.append {ts us : List Token} (h : Opens ts) (hus : us.head? ≠ some .equals) :
    Opens (ts ++ us) := by
  obtain ⟨t, vs, rfl, hparen, hbrace, hname⟩ := h
  refine ⟨t, vs ++ us, rfl, hparen, hbrace, ?_⟩
  intro x hx
  cases vs with
  | nil => exact hus
  | cons v vs => exact hname x hx

theorem Opens.wrapped {wrap : Bool} {ts : List Token} (h : Opens ts) :
    Opens (wrapTokens wrap ts) := by
  cases wrap with
  | false => exact h
  | true => exact ⟨.openParen, ts ++ [.closeParen], rfl, nofun, nofun, nofun⟩

theorem opens_path (x : String) (fields : List String) :
    Opens (.name x :: fieldTokens fields) := by
  refine ⟨.name x, fieldTokens fields, rfl, nofun, nofun, ?_⟩
  intro _ _
  cases fields <;> simp [fieldTokens]

theorem Expr.Plain.opens {e : Expr} (h : e.Plain) : Opens e.tokens := by
  induction h with
  | nil => exact ⟨.nil, [], rfl, nofun, nofun, nofun⟩
  | bool b => exact ⟨.bool b, [], rfl, nofun, nofun, nofun⟩
  | number => exact ⟨.numeral _, [], rfl, nofun, nofun, nofun⟩
  | str s => exact ⟨.str s, [], rfl, nofun, nofun, nofun⟩
  | path => exact opens_path _ _
  | unary op => cases op <;> exact ⟨_, _, rfl, nofun, nofun, nofun⟩
  | @binary op l r _ _ ihl _ =>
      have hoperator : (.binary op :: wrapTokens (r.wrapsBeside op true) r.tokens).head? ≠
          some .equals := by simp
      exact ihl.wrapped.append hoperator
  | call _ _ ih _ =>
      rw [tokens_call, List.append_assoc]
      exact ih.wrapped.append (by simp)
  | method _ _ _ ih _ =>
      rw [tokens_method, List.append_assoc]
      exact ih.wrapped.append (by simp)
  | table => exact ⟨.openBrace, _, rfl, nofun, nofun, nofun⟩

theorem Opens.head?_append_ne {ts : List Token} (h : Opens ts) (rest : List Token) :
    (ts ++ rest).head? ≠ some .closeParen ∧ (ts ++ rest).head? ≠ some .closeBrace := by
  obtain ⟨t, us, rfl, hparen, hbrace, -⟩ := h
  exact ⟨fun heq => hparen (Option.some.inj heq), fun heq => hbrace (Option.some.inj heq)⟩

/-- No name of a field stands there. -/
theorem Opens.splitField_eq {ts : List Token} (h : Opens ts) : splitField ts = (none, ts) := by
  obtain ⟨t, us, rfl, -, -, hname⟩ := h
  cases t with
  | name x =>
      cases us with
      | nil => rfl
      | cons u us =>
          cases u with
          | equals => exact absurd rfl (hname x rfl)
          | _ => rfl
  | _ => rfl

/-! ### Reading the tokens -/

/-- The tokens of an expression are **read as its tree**, between operators that it binds
tighter than; and they may be called unless they need parentheses. -/
structure Expr.Reads (e : Expr) : Prop where
  expr : ReadsExpr e.opening e.closing e.tokens e.tree
  primary : e.wrapsAsCallee = false → ReadsPrimary e.tokens e.tree

namespace Expr.Reads

variable {e : Expr}

theorem ofPrimary (h : ReadsPrimary e.tokens e.tree) : e.Reads :=
  ⟨h.operand.expr e.opening e.closing, fun _ => h⟩

theorem ofOperand (h : ReadsOperand e.tokens e.tree) (hwraps : e.wrapsAsCallee = true) :
    e.Reads := by
  refine ⟨h.expr e.opening e.closing, ?_⟩
  intro hcallee
  rw [hwraps] at hcallee
  cases hcallee

/-- As an operand, in parentheses if it does not bind tight enough. -/
theorem wrapped (h : e.Reads) {wrap : Bool} {opening closing : ℕ}
    (hwrap : wrap = false → opening ≤ e.opening ∧ closing ≤ e.closing) :
    ReadsExpr opening closing (wrapTokens wrap e.tokens) e.tree := by
  cases wrap with
  | false =>
      obtain ⟨hopening, hclosing⟩ := hwrap rfl
      exact h.expr.mono hopening hclosing
  | true => exact (h.expr.parens e.opening_pos).operand.expr opening closing

/-- As what is called. -/
theorem callee (h : e.Reads) : ReadsPrimary (wrapTokens e.wrapsAsCallee e.tokens) e.tree := by
  cases hwraps : e.wrapsAsCallee with
  | false => exact h.primary hwraps
  | true => exact h.expr.parens e.opening_pos

end Expr.Reads

theorem readsPrimary_path {ts : List Token} {t : Tree} (h : ReadsPrimary ts t)
    (fields : List String) : ReadsPrimary (ts ++ fieldTokens fields) (fields.foldl .index t) := by
  induction fields generalizing ts t with
  | nil =>
      rw [fieldTokens, List.flatMap_nil, List.append_nil]
      exact h
  | cons x fields ih =>
      have hassoc : ts ++ fieldTokens (x :: fields) =
          ts ++ [.dot, .name x] ++ fieldTokens fields := by
        simp [fieldTokens]
      rw [hassoc]
      exact ih (h.index x)

theorem readsArgs {args : List Expr} (hplain : ∀ e ∈ args, e.Plain) (h : ∀ e ∈ args, e.Reads) :
    ReadsArgs (argsTokens args) (treesOf args) := by
  cases args with
  | nil => exact readsArgs_nil
  | cons e rest =>
      have hopens : Opens (argsTokens (e :: rest)) := by
        have he := (hplain e List.mem_cons_self).opens
        cases rest with
        | nil => exact he
        | cons a rest => exact he.append (by simp)
      have hlist : ReadsArgList (argsTokens (e :: rest)) (treesOf (e :: rest)) := by
        clear hopens hplain
        induction rest generalizing e with
        | nil => exact (h e List.mem_cons_self).expr.argList e.opening_pos
        | cons a rest ih =>
            have hrest := ih a fun b hb => h b (List.mem_cons_of_mem _ hb)
            exact (h e List.mem_cons_self).expr.argList_cons e.opening_pos hrest
      exact hlist.args fun after => (hopens.head?_append_ne after).1

theorem readsField {f : Field} (hplain : f.value.Plain) (h : f.value.Reads) :
    ReadsField f.tokens f.tree := by
  cases f with
  | named name e =>
      refine ⟨e.tokens, e.opening, e.closing, e.opening_pos, h.expr, ?_, ?_⟩
      · exact Nat.le_trans (Nat.le_succ _) (Nat.le_succ _)
      · exact fun _ _ => ⟨nofun, rfl⟩
  | positional e =>
      refine ⟨e.tokens, e.opening, e.closing, e.opening_pos, h.expr, Nat.le_refl _, ?_⟩
      intro rest hrest
      have hopens := hplain.opens
      exact ⟨(hopens.head?_append_ne rest).2, (hopens.append hrest).splitField_eq⟩

theorem readsFields {fields : List Field} (h : ∀ f ∈ fields, ReadsField f.tokens f.tree) :
    ReadsFields (fieldsTokens fields) (fieldTrees fields) := by
  induction fields with
  | nil => exact readsFields_nil
  | cons f rest ih =>
      have hf := h f List.mem_cons_self
      have hrest := ih fun g hg => h g (List.mem_cons_of_mem _ hg)
      cases rest with
      | nil => exact hf.fields
      | cons g rest => exact hf.fields_cons hrest

/-- **The tokens of a plain expression are read as its tree.** -/
theorem Expr.Plain.reads {e : Expr} (h : e.Plain) : e.Reads := by
  induction h with
  | nil => exact Reads.ofOperand (readsOperand_literal fun _ _ => rfl) rfl
  | bool b => exact Reads.ofOperand (readsOperand_literal fun _ _ => rfl) rfl
  | number => exact Reads.ofOperand (readsOperand_literal fun _ _ => rfl) rfl
  | str s => exact Reads.ofOperand (readsOperand_literal fun _ _ => rfl) rfl
  | @path p =>
      exact Reads.ofPrimary (readsPrimary_path (readsPrimary_name (pathRoot p)) (pathFields p))
  | unary op _ ih =>
      have hoperand := ih.wrapped fun hwraps => priority_of_not_wrapsUnder op hwraps
      exact Reads.ofOperand (hoperand.unary op) rfl
  | binary op _ _ ihl ihr =>
      have hleft := ihl.wrapped fun hwraps => priority_of_not_wrapsBeside_left op hwraps
      have hright := ihr.wrapped fun hwraps => priority_of_not_wrapsBeside_right op hwraps
      exact ⟨hleft.binary hright, nofun⟩
  | call _ hargs ih ihargs =>
      exact Reads.ofPrimary (ih.callee.call (readsArgs hargs ihargs))
  | method _ _ hargs ih ihargs =>
      exact Reads.ofPrimary (ih.callee.method _ (readsArgs hargs ihargs))
  | table _ hvalues ih =>
      have hfields := readsFields fun f hf => readsField (hvalues f hf) (ih f hf)
      exact Reads.ofOperand hfields.table rfl

/-! ### Reading the text -/

/-- **The text of a plain expression is read as its tree**, however wide it is indented. -/
theorem read_render {e : Expr} (h : e.Plain) (width : ℕ) : read (e.render width) = some e.tree := by
  have hlex : lex (e.render width).toList = some e.tokens := by
    have htokens := h.lexes width 0 [] nofun
    rw [List.append_nil, lex_nil, Option.map_some, List.append_nil] at htokens
    rw [Expr.render, Layout.toText, String.toList_ofList]
    exact htokens
  have hread : readExpr (4 * e.tokens.length + 2) 0 (e.tokens ++ []) = some (e.tree, []) :=
    h.reads.expr.whole e.opening_pos (Nat.zero_le _) (stops_nil 0) endsSuffixes_nil _ (by simp)
  rw [List.append_nil] at hread
  rw [read, hlex, Option.bind_eq_bind, Option.bind_some, hread]

/-- The expression `-(-card.cost) - (1 - deck:count({label = "a\"b", #hand}))`. -/
def nestedMinus : Expr :=
  .binary .sub (.unary .neg (.unary .neg (.path "card.cost")))
    (.binary .sub .one (.method (.path "deck") "count"
      [.table [.named "label" (.str "a\"b"), .positional (.unary .len (.path "hand"))]]))

theorem plain_nestedMinus : nestedMinus.Plain := by
  have hcost : Expr.Plain (.path "card.cost") := .path (by decide +kernel) (by decide +kernel)
  have hdeck : Expr.Plain (.path "deck") := .path (by decide +kernel) (by decide +kernel)
  have hhand : Expr.Plain (.path "hand") := .path (by decide +kernel) (by decide +kernel)
  have htable : Expr.Plain
      (.table [.named "label" (.str "a\"b"), .positional (.unary .len (.path "hand"))]) := by
    refine .table ?_ ?_
    · decide +kernel
    · intro f hf
      rcases List.mem_pair.mp hf with rfl | rfl
      · exact .str _
      · exact .unary .len hhand
  refine .binary .sub (.unary .neg (.unary .neg hcost)) (.binary .sub (.number rfl rfl) ?_)
  refine .method hdeck (by decide +kernel) ?_
  intro e he
  obtain rfl := List.mem_singleton.mp he
  exact htable

theorem read_render_nestedMinus : nestedMinus.Plain ∧ read (nestedMinus.render 2) =
    some (.binary .sub (.unary .neg (.unary .neg (.index (.name "card") "cost")))
      (.binary .sub (.numeral "1") (.method (.name "deck") "count"
        [.table [(some "label", .str "a\"b"), (none, .unary .len (.name "hand"))]]))) :=
  ⟨plain_nestedMinus, read_render plain_nestedMinus 2⟩

end Lua

end JokerScript
