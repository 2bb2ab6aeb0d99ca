import JokerScript.Proofs.Lua.Token

/-!
# Reading Expressions

A reader for the expressions of Lua, by recursive descent with operator priorities. It
returns the tree of the expression without its parentheses, and the tokens that are left.

An operator with a left priority above a limit takes what stands before it as its first
operand, and reads its second one with its right priority as the limit. So operators of
equal priority group to the left, except for `..`, whose right priority is less than its
left one.

The recursion is structural on fuel. Four times the number of tokens is enough: each call
that takes no token is followed by one that does after at most three more.

## Main definitions

* `Lua.Tree` — expressions without parentheses.
* `Lua.readExpr` — the reader.
* `Lua.read` — the tree of a whole text.

## Main results

* `Lua.readRest_of_stops`, `Lua.readSuffixes_of_ends` — where an expression ends.
-/

namespace JokerScript

namespace Lua

/-! ### Trees -/

/-- An expression as it is read, without parentheses. A number is known by its numeral, and a
dotted path is taken apart. -/
inductive Tree where
  | nil
  | bool (b : Bool)
  | numeral (text : String)
  | str (s : String)
  | name (x : String)
  | index (t : Tree) (field : String)
  | unary (op : UnaryOp) (t : Tree)
  | binary (op : BinaryOp) (l r : Tree)
  | call (callee : Tree) (args : List Tree)
  | method (receiver : Tree) (name : String) (args : List Tree)
  /-- A table constructor; a positional field has no name. -/
  | table (fields : List (Option String × Tree))

/-! ### Priorities -/

/-- How tightly an operator binds what stands before it. -/
def BinaryOp.leftPriority : BinaryOp → ℕ
  | or => 1
  | and => 2
  | eq | ne | lt | le | gt | ge => 3
  | concat => 5
  | add | sub => 6
  | mul | div => 7

/-- How tightly an operator binds what stands after it. -/
def BinaryOp.rightPriority : BinaryOp → ℕ
  | or => 1
  | and => 2
  | eq | ne | lt | le | gt | ge => 3
  | concat => 4
  | add | sub => 6
  | mul | div => 7

/-- Unary operators bind tighter than binary ones. -/
def unaryPriority : ℕ := 8

/-! ### The reader -/

/-- The name of the field that begins here, if it has one, and the tokens of its value. -/
def splitField : List Token → Option String × List Token
  | .name x :: .equals :: ts => (some x, ts)
  | ts => (none, ts)

mutual

/-- Read an expression whose operators bind tighter than `limit`. -/
def readExpr : ℕ → ℕ → List Token → Option (Tree × List Token)
  | 0, _, _ => none
  | fuel + 1, limit, ts => do
    let (left, ts) ← readOperand fuel ts
    readRest fuel limit left ts

/-- Go on after an operand `left` while operators bind tighter than `limit`. -/
def readRest : ℕ → ℕ → Tree → List Token → Option (Tree × List Token)
  | 0, _, _, _ => none
  | fuel + 1, limit, left, ts =>
    match ts with
    | .binary op :: after =>
      if limit < op.leftPriority then do
        let (right, after) ← readExpr fuel op.rightPriority after
        readRest fuel limit (.binary op left right) after
      else
        some (left, ts)
    | _ => some (left, ts)

/-- Read an operand: a literal, a table, an operand of a unary operator, or a name or an
expression in parentheses with what follows it. -/
def readOperand : ℕ → List Token → Option (Tree × List Token)
  | 0, _ => none
  | fuel + 1, ts =>
    match ts with
    | .nil :: ts => some (.nil, ts)
    | .bool b :: ts => some (.bool b, ts)
    | .numeral text :: ts => some (.numeral text, ts)
    | .str s :: ts => some (.str s, ts)
    | .not :: ts => do
      let (t, ts) ← readExpr fuel unaryPriority ts
      return (.unary .not t, ts)
    | .binary .sub :: ts => do
      let (t, ts) ← readExpr fuel unaryPriority ts
      return (.unary .neg t, ts)
    | .hash :: ts => do
      let (t, ts) ← readExpr fuel unaryPriority ts
      return (.unary .len t, ts)
    | .openBrace :: ts => do
      let (fields, ts) ← readFields fuel ts
      return (.table fields, ts)
    | .name x :: ts => readSuffixes fuel (.name x) ts
    | .openParen :: ts => do
      let (t, ts) ← readExpr fuel 0 ts
      match ts with
      | .closeParen :: ts => readSuffixes fuel t ts
      | _ => none
    | _ => none

/-- Go on after a name, a call or an expression in parentheses: with a field, or with a call
of a function or a method. A call with a single string or table needs no parentheses. -/
def readSuffixes : ℕ → Tree → List Token → Option (Tree × List Token)
  | 0, _, _ => none
  | fuel + 1, t, ts =>
    match ts with
    | .dot :: .name x :: ts => readSuffixes fuel (.index t x) ts
    | .dot :: _ => none
    | .openParen :: ts => do
      let (args, ts) ← readArgs fuel ts
      readSuffixes fuel (.call t args) ts
    | .colon :: .name x :: .openParen :: ts => do
      let (args, ts) ← readArgs fuel ts
      readSuffixes fuel (.method t x args) ts
    | .colon :: .name x :: .str s :: ts => readSuffixes fuel (.method t x [.str s]) ts
    | .colon :: .name x :: .openBrace :: ts => do
      let (fields, ts) ← readFields fuel ts
      readSuffixes fuel (.method t x [.table fields]) ts
    | .colon :: _ => none
    | .str s :: ts => readSuffixes fuel (.call t [.str s]) ts
    | .openBrace :: ts => do
      let (fields, ts) ← readFields fuel ts
      readSuffixes fuel (.call t [.table fields]) ts
    | ts => some (t, ts)

/-- Read arguments up to the parenthesis that ends them. -/
def readArgs : ℕ → List Token → Option (List Tree × List Token)
  | 0, _ => none
  | fuel + 1, ts =>
    if ts.head? = some .closeParen then some ([], ts.tail) else readArgList fuel ts

/-- Read one argument and those that follow it. -/
def readArgList : ℕ → List Token → Option (List Tree × List Token)
  | 0, _ => none
  | fuel + 1, ts => do
    let (arg, ts) ← readExpr fuel 0 ts
    match ts with
    | .comma :: ts =>
      let (args, ts) ← readArgList fuel ts
      return (arg :: args, ts)
    | .closeParen :: ts => return ([arg], ts)
    | _ => none

/-- Read fields up to the brace that ends them. -/
def readFields : ℕ → List Token → Option (List (Option String × Tree) × List Token)
  | 0, _ => none
  | fuel + 1, ts =>
    if ts.head? = some .closeBrace then
      some ([], ts.tail)
    else do
      let (value, after) ← readExpr fuel 0 (splitField ts).2
      match after with
      | .comma :: after =>
        let (fields, after) ← readFields fuel after
        return (((splitField ts).1, value) :: fields, after)
      | .closeBrace :: after => return ([((splitField ts).1, value)], after)
      | _ => none

end

/-- **The tree of a text** that is one expression. -/
def read (text : String) : Option Tree := do
  let ts ← lex text.toList
  match readExpr (4 * ts.length + 2) 0 ts with
  | some (t, []) => some t
  | _ => none

/-! ### Where an expression ends -/

/-- Does a name or a call go on with the token? -/
def Token.isSuffixStart : Token → Bool
  | .dot | .colon | .openParen | .openBrace | .str _ => true
  | _ => false

/-- Neither a name nor a call goes on here. -/
def EndsSuffixes (rest : List Token) : Prop := ∀ t ∈ rest.head?, t.isSuffixStart = false

/-- No operator above the limit goes on here. -/
def Stops (limit : ℕ) (rest : List Token) : Prop :=
  ∀ op after, rest = .binary op :: after → op.leftPriority ≤ limit

theorem Stops.mono {limit limit' : ℕ} {rest : List Token} (h : Stops limit rest)
    (hle : limit ≤ limit') : Stops limit' rest :=
  fun op after hrest => Nat.le_trans (h op after hrest) hle

theorem stops_nil (limit : ℕ) : Stops limit [] := nofun

theorem stops_cons (t : Token) (ht : ∀ op, t ≠ .binary op) (limit : ℕ) (rest : List Token) :
    Stops limit (t :: rest) := by
  intro op after hrest
  exact absurd (List.cons.inj hrest).1 (ht op)

theorem endsSuffixes_nil : EndsSuffixes [] := nofun

theorem endsSuffixes_cons {t : Token} (ht : t.isSuffixStart = false) (rest : List Token) :
    EndsSuffixes (t :: rest) := by
  intro first hfirst
  obtain rfl := Option.some.inj hfirst
  exact ht

theorem leftPriority_lt_unaryPriority (op : BinaryOp) : op.leftPriority < unaryPriority := by
  cases op <;> decide

/-- No operator binds as tightly as a unary one. -/
theorem stops_unaryPriority (rest : List Token) : Stops unaryPriority rest :=
  fun op _ _ => Nat.le_of_lt (leftPriority_lt_unaryPriority op)

theorem readRest_of_stops {limit : ℕ} {rest : List Token} (h : Stops limit rest) (t : Tree)
    {fuel : ℕ} (hfuel : 0 < fuel) : readRest fuel limit t rest = some (t, rest) := by
  obtain ⟨fuel, rfl⟩ : ∃ n, fuel = n + 1 := ⟨fuel - 1, by omega⟩
  cases rest with
  | nil => rfl
  | cons first rest =>
      cases first with
      | binary op => rw [readRest, if_neg (Nat.not_lt.mpr (h op rest rfl))]
      | _ => rfl

theorem readSuffixes_of_ends {rest : List Token} (h : EndsSuffixes rest) (t : Tree) {fuel : ℕ}
    (hfuel : 0 < fuel) : readSuffixes fuel t rest = some (t, rest) := by
  obtain ⟨fuel, rfl⟩ : ∃ n, fuel = n + 1 := ⟨fuel - 1, by omega⟩
  cases rest with
  | nil => rfl
  | cons first rest =>
      have hfirst := h first rfl
      cases first <;> first | rfl | cases hfirst

/-! ### What is read as what -/

/-- The tokens are **read as an expression**: it is the first operand of an operator that
follows with a left priority of at most `closing`, and may follow a limit below `opening`. -/
def ReadsExpr (opening closing : ℕ) (ts : List Token) (t : Tree) : Prop :=
  ∀ limit rest fuel, limit < opening → Stops closing rest → EndsSuffixes rest →
    4 * (ts ++ rest).length + 2 ≤ fuel →
    ∃ fuel', 4 * rest.length + 1 ≤ fuel' ∧
      readExpr fuel limit (ts ++ rest) = readRest fuel' limit t rest

/-- The tokens are **read as an operand**. -/
def ReadsOperand (ts : List Token) (t : Tree) : Prop :=
  ∀ rest fuel, EndsSuffixes rest → 4 * (ts ++ rest).length + 1 ≤ fuel →
    readOperand fuel (ts ++ rest) = some (t, rest)

/-- The tokens are **read as a primary expression**, which may go on with a field or a call. -/
def ReadsPrimary (ts : List Token) (t : Tree) : Prop :=
  ∀ rest fuel, 4 * (ts ++ rest).length + 1 ≤ fuel →
    ∃ fuel', 4 * rest.length + 1 ≤ fuel' ∧
      readOperand fuel (ts ++ rest) = readSuffixes fuel' t rest

/-- The tokens are **read as arguments**. -/
def ReadsArgs (ts : List Token) (args : List Tree) : Prop :=
  ∀ rest fuel, 4 * (ts ++ .closeParen :: rest).length + 4 ≤ fuel →
    readArgs fuel (ts ++ .closeParen :: rest) = some (args, rest)

/-- The tokens are **read as fields**. -/
def ReadsFields (ts : List Token) (fields : List (Option String × Tree)) : Prop :=
  ∀ rest fuel, 4 * (ts ++ .closeBrace :: rest).length + 3 ≤ fuel →
    readFields fuel (ts ++ .closeBrace :: rest) = some (fields, rest)

section Laws

variable {opening closing : ℕ} {ts : List Token} {t : Tree}

/-- A whole expression. -/
theorem ReadsExpr.whole (h : ReadsExpr opening closing ts t) {limit : ℕ} (hlimit : limit < opening)
    (hclosing : limit ≤ closing) {rest : List Token} (hstops : Stops limit rest)
    (hends : EndsSuffixes rest) (fuel : ℕ) (hfuel : 4 * (ts ++ rest).length + 2 ≤ fuel) :
    readExpr fuel limit (ts ++ rest) = some (t, rest) := by
  obtain ⟨fuel', hfuel', hread⟩ := h limit rest fuel hlimit (hstops.mono hclosing) hends hfuel
  rw [hread, readRest_of_stops hstops t (by omega)]

/-- A token that is an operand of its own. -/
theorem readsOperand_literal {first : Token}
    (h : ∀ fuel rest, readOperand (fuel + 1) (first :: rest) = some (t, rest)) :
    ReadsOperand [first] t := by
  intro rest fuel _ hfuel
  obtain ⟨fuel, rfl⟩ : ∃ n, fuel = n + 1 := ⟨fuel - 1, by omega⟩
  exact h fuel rest

/-- A primary expression that does not go on is an operand. -/
theorem ReadsPrimary.operand (h : ReadsPrimary ts t) : ReadsOperand ts t := by
  intro rest fuel hends hfuel
  obtain ⟨fuel', hfuel', hread⟩ := h rest fuel hfuel
  rw [hread, readSuffixes_of_ends hends t (by omega)]

/-- An operand is an expression, whatever operators stand around it. -/
theorem ReadsOperand.expr (h : ReadsOperand ts t) (opening closing : ℕ) :
    ReadsExpr opening closing ts t := by
  intro limit rest fuel _ _ hends hfuel
  obtain ⟨fuel, rfl⟩ : ∃ n, fuel = n + 1 := ⟨fuel - 1, by omega⟩
  have hoperand := h rest fuel hends (by omega)
  refine ⟨fuel, ?_, ?_⟩
  · rw [List.length_append] at hfuel
    omega
  · rw [readExpr, hoperand]
    rfl

/-- Fewer operators may stand around the expression. -/
theorem ReadsExpr.mono (h : ReadsExpr opening closing ts t) {opening' closing' : ℕ}
    (hopening : opening' ≤ opening) (hclosing : closing' ≤ closing) :
    ReadsExpr opening' closing' ts t := by
  intro limit rest fuel hlimit hstops hends hfuel
  exact h limit rest fuel (Nat.lt_of_lt_of_le hlimit hopening) (hstops.mono hclosing) hends hfuel

/-- An expression in parentheses is a primary one. -/
theorem ReadsExpr.parens (h : ReadsExpr opening closing ts t) (hopening : 0 < opening) :
    ReadsPrimary (.openParen :: ts ++ [.closeParen]) t := by
  intro rest fuel hfuel
  have hassoc : .openParen :: ts ++ [.closeParen] ++ rest =
      .openParen :: (ts ++ .closeParen :: rest) := by simp
  rw [hassoc] at hfuel ⊢
  rw [List.length_cons, List.length_append, List.length_cons] at hfuel
  obtain ⟨fuel, rfl⟩ : ∃ n, fuel = n + 1 := ⟨fuel - 1, by omega⟩
  have hstops : Stops 0 (.closeParen :: rest) := stops_cons .closeParen nofun 0 _
  have hends : EndsSuffixes (.closeParen :: rest) := endsSuffixes_cons rfl _
  have hinner := h.whole hopening (Nat.zero_le _) hstops hends fuel (by
    rw [List.length_append, List.length_cons]
    omega)
  refine ⟨fuel, by omega, ?_⟩
  rw [readOperand, hinner]
  rfl

/-- Two expressions with an operator between them. -/
theorem ReadsExpr.binary {ls rs : List Token} {l r : Tree} {op : BinaryOp}
    (hl : ReadsExpr op.leftPriority op.leftPriority ls l)
    (hr : ReadsExpr (op.rightPriority + 1) op.rightPriority rs r) :
    ReadsExpr op.leftPriority op.rightPriority (ls ++ .binary op :: rs) (.binary op l r) := by
  intro limit rest fuel hlimit hstops hends hfuel
  have hassoc : ls ++ .binary op :: rs ++ rest = ls ++ .binary op :: (rs ++ rest) := by simp
  rw [hassoc] at hfuel ⊢
  have hstopsOp : Stops op.leftPriority (.binary op :: (rs ++ rest)) := by
    intro op' after hrest
    obtain ⟨rfl, -⟩ : op = op' ∧ _ := by simpa using hrest
    exact Nat.le_refl _
  have hendsOp : EndsSuffixes (.binary op :: (rs ++ rest)) := endsSuffixes_cons rfl _
  obtain ⟨fuel', hfuel', hread⟩ := hl limit _ fuel hlimit hstopsOp hendsOp hfuel
  rw [List.length_cons] at hfuel'
  obtain ⟨fuel', rfl⟩ : ∃ n, fuel' = n + 1 := ⟨fuel' - 1, by omega⟩
  have hsecond := hr.whole (Nat.lt_succ_self _) (Nat.le_refl _) hstops hends fuel' (by omega)
  refine ⟨fuel', ?_, ?_⟩
  · rw [List.length_append] at hfuel'
    omega
  · rw [hread, readRest, if_pos hlimit, hsecond]
    rfl

example : readExpr 22 0 [.name "a", .binary .sub, .name "b", .binary .concat, .name "c",
    .binary .concat, .name "d"] =
    some (.binary .concat (.binary .sub (.name "a") (.name "b"))
      (.binary .concat (.name "c") (.name "d")), []) := rfl

/-- An operator before an operand. -/
theorem ReadsExpr.unary (h : ReadsExpr (unaryPriority + 1) unaryPriority ts t) (op : UnaryOp) :
    ReadsOperand (op.token :: ts) (.unary op t) := by
  intro rest fuel hends hfuel
  rw [List.cons_append, List.length_cons] at hfuel
  obtain ⟨fuel, rfl⟩ : ∃ n, fuel = n + 1 := ⟨fuel - 1, by omega⟩
  have hinner := h.whole (Nat.lt_succ_self _) (Nat.le_refl _) (stops_unaryPriority rest) hends fuel
    (by omega)
  cases op with
  | not =>
      rw [List.cons_append, UnaryOp.token, readOperand, hinner]
      rfl
  | neg =>
      rw [List.cons_append, UnaryOp.token, readOperand, hinner]
      rfl
  | len =>
      rw [List.cons_append, UnaryOp.token, readOperand, hinner]
      rfl

/-! ### Names and calls -/

theorem readsPrimary_name (x : String) : ReadsPrimary [.name x] (.name x) := by
  intro rest fuel hfuel
  rw [List.length_append, List.length_singleton] at hfuel
  obtain ⟨fuel, rfl⟩ : ∃ n, fuel = n + 1 := ⟨fuel - 1, by omega⟩
  exact ⟨fuel, by omega, rfl⟩

/-- A field. -/
theorem ReadsPrimary.index (h : ReadsPrimary ts t) (x : String) :
    ReadsPrimary (ts ++ [.dot, .name x]) (.index t x) := by
  intro rest fuel hfuel
  rw [List.append_assoc] at hfuel ⊢
  obtain ⟨fuel', hfuel', hread⟩ := h _ fuel hfuel
  rw [List.length_append, List.length_cons, List.length_singleton] at hfuel'
  obtain ⟨fuel', rfl⟩ : ∃ n, fuel' = n + 1 := ⟨fuel' - 1, by omega⟩
  exact ⟨fuel', by omega, hread⟩

/-- A call of a function. -/
theorem ReadsPrimary.call (h : ReadsPrimary ts t) {us : List Token} {args : List Tree}
    (hargs : ReadsArgs us args) :
    ReadsPrimary (ts ++ .openParen :: us ++ [.closeParen]) (.call t args) := by
  intro rest fuel hfuel
  have hassoc : ts ++ .openParen :: us ++ [.closeParen] ++ rest =
      ts ++ .openParen :: (us ++ .closeParen :: rest) := by simp
  rw [hassoc] at hfuel ⊢
  obtain ⟨fuel', hfuel', hread⟩ := h _ fuel hfuel
  rw [List.length_cons] at hfuel'
  obtain ⟨fuel', rfl⟩ : ∃ n, fuel' = n + 1 := ⟨fuel' - 1, by omega⟩
  have hinner := hargs rest fuel' (by omega)
  refine ⟨fuel', ?_, ?_⟩
  · rw [List.length_append, List.length_cons] at hfuel'
    omega
  · rw [hread, readSuffixes, hinner]
    rfl

/-- A call of a method. -/
theorem ReadsPrimary.method (h : ReadsPrimary ts t) (x : String) {us : List Token}
    {args : List Tree} (hargs : ReadsArgs us args) :
    ReadsPrimary (ts ++ .colon :: .name x :: .openParen :: us ++ [.closeParen])
      (.method t x args) := by
  intro rest fuel hfuel
  have hassoc : ts ++ .colon :: .name x :: .openParen :: us ++ [.closeParen] ++ rest =
      ts ++ .colon :: .name x :: .openParen :: (us ++ .closeParen :: rest) := by simp
  rw [hassoc] at hfuel ⊢
  obtain ⟨fuel', hfuel', hread⟩ := h _ fuel hfuel
  rw [List.length_cons, List.length_cons, List.length_cons] at hfuel'
  obtain ⟨fuel', rfl⟩ : ∃ n, fuel' = n + 1 := ⟨fuel' - 1, by omega⟩
  have hinner := hargs rest fuel' (by omega)
  refine ⟨fuel', ?_, ?_⟩
  · rw [List.length_append, List.length_cons] at hfuel'
    omega
  · rw [hread, readSuffixes, hinner]
    rfl

/-! ### Arguments -/

/-- The tokens are read as arguments, of which there is at least one. -/
def ReadsArgList (ts : List Token) (args : List Tree) : Prop :=
  ∀ rest fuel, 4 * (ts ++ .closeParen :: rest).length + 3 ≤ fuel →
    readArgList fuel (ts ++ .closeParen :: rest) = some (args, rest)

theorem readsArgs_nil : ReadsArgs [] [] := by
  intro rest fuel hfuel
  obtain ⟨fuel, rfl⟩ : ∃ n, fuel = n + 1 := ⟨fuel - 1, by omega⟩
  rfl

theorem ReadsArgList.args {args : List Tree} (h : ReadsArgList ts args)
    (hhead : ∀ rest, (ts ++ rest).head? ≠ some .closeParen) : ReadsArgs ts args := by
  intro rest fuel hfuel
  obtain ⟨fuel, rfl⟩ : ∃ n, fuel = n + 1 := ⟨fuel - 1, by omega⟩
  rw [readArgs, if_neg (hhead _)]
  exact h rest fuel (by omega)

theorem ReadsExpr.argList (h : ReadsExpr opening closing ts t) (hopening : 0 < opening) :
    ReadsArgList ts [t] := by
  intro rest fuel hfuel
  obtain ⟨fuel, rfl⟩ : ∃ n, fuel = n + 1 := ⟨fuel - 1, by omega⟩
  have hstops : Stops 0 (.closeParen :: rest) := stops_cons .closeParen nofun 0 _
  have hends : EndsSuffixes (.closeParen :: rest) := endsSuffixes_cons rfl _
  have hinner := h.whole hopening (Nat.zero_le _) hstops hends fuel (by omega)
  rw [readArgList, hinner]
  rfl

theorem ReadsExpr.argList_cons (h : ReadsExpr opening closing ts t) (hopening : 0 < opening)
    {us : List Token} {args : List Tree} (hargs : ReadsArgList us args) :
    ReadsArgList (ts ++ .comma :: us) (t :: args) := by
  intro rest fuel hfuel
  rw [List.append_assoc, List.cons_append] at hfuel ⊢
  obtain ⟨fuel, rfl⟩ : ∃ n, fuel = n + 1 := ⟨fuel - 1, by omega⟩
  have hstops : Stops 0 (.comma :: (us ++ .closeParen :: rest)) := stops_cons .comma nofun 0 _
  have hends : EndsSuffixes (.comma :: (us ++ .closeParen :: rest)) := endsSuffixes_cons rfl _
  have hinner := h.whole hopening (Nat.zero_le _) hstops hends fuel (by omega)
  rw [List.length_append, List.length_cons] at hfuel
  have houter := hargs rest fuel (by omega)
  rw [readArgList, hinner, Option.bind_eq_bind, Option.bind_some]
  simp only [houter]
  rfl

/-! ### Fields -/

/-- The tokens are **read as one field** of a table. -/
def ReadsField (ts : List Token) (field : Option String × Tree) : Prop :=
  ∃ us opening closing, 0 < opening ∧ ReadsExpr opening closing us field.2 ∧
    us.length ≤ ts.length ∧ ∀ rest, rest.head? ≠ some .equals →
      (ts ++ rest).head? ≠ some .closeBrace ∧ splitField (ts ++ rest) = (field.1, us ++ rest)

theorem readsFields_nil : ReadsFields [] [] := by
  intro rest fuel hfuel
  obtain ⟨fuel, rfl⟩ : ∃ n, fuel = n + 1 := ⟨fuel - 1, by omega⟩
  rfl

theorem ReadsField.fields {field : Option String × Tree} (h : ReadsField ts field) :
    ReadsFields ts [field] := by
  intro rest fuel hfuel
  obtain ⟨us, opening, closing, hopening, hvalue, hlength, hlead⟩ := h
  obtain ⟨fuel, rfl⟩ : ∃ n, fuel = n + 1 := ⟨fuel - 1, by omega⟩
  obtain ⟨hhead, hsplit⟩ := hlead (.closeBrace :: rest) (by simp)
  have hstops : Stops 0 (.closeBrace :: rest) := stops_cons .closeBrace nofun 0 _
  have hends : EndsSuffixes (.closeBrace :: rest) := endsSuffixes_cons rfl _
  have hinner := hvalue.whole hopening (Nat.zero_le _) hstops hends fuel (by
    rw [List.length_append] at hfuel ⊢
    omega)
  rw [readFields, if_neg hhead, hsplit, hinner]
  rfl

theorem ReadsField.fields_cons {field : Option String × Tree} (h : ReadsField ts field)
    {us : List Token} {fields : List (Option String × Tree)} (hfields : ReadsFields us fields) :
    ReadsFields (ts ++ .comma :: us) (field :: fields) := by
  intro rest fuel hfuel
  obtain ⟨vs, opening, closing, hopening, hvalue, hlength, hlead⟩ := h
  rw [List.append_assoc, List.cons_append] at hfuel ⊢
  rw [List.length_append, List.length_cons] at hfuel
  obtain ⟨fuel, rfl⟩ : ∃ n, fuel = n + 1 := ⟨fuel - 1, by omega⟩
  obtain ⟨hhead, hsplit⟩ := hlead (.comma :: (us ++ .closeBrace :: rest)) (by simp)
  have hstops : Stops 0 (.comma :: (us ++ .closeBrace :: rest)) := stops_cons .comma nofun 0 _
  have hends : EndsSuffixes (.comma :: (us ++ .closeBrace :: rest)) := endsSuffixes_cons rfl _
  have hinner := hvalue.whole hopening (Nat.zero_le _) hstops hends fuel (by
    rw [List.length_append, List.length_cons]
    omega)
  have houter := hfields rest fuel (by omega)
  rw [readFields, if_neg hhead, hsplit, hinner, Option.bind_eq_bind, Option.bind_some]
  simp only [houter]
  rfl

/-- A table constructor. -/
theorem ReadsFields.table {fields : List (Option String × Tree)} (h : ReadsFields ts fields) :
    ReadsOperand (.openBrace :: ts ++ [.closeBrace]) (.table fields) := by
  intro rest fuel _ hfuel
  have hassoc : .openBrace :: ts ++ [.closeBrace] ++ rest =
      .openBrace :: (ts ++ .closeBrace :: rest) := by simp
  rw [hassoc, List.length_cons] at hfuel
  rw [hassoc]
  obtain ⟨fuel, rfl⟩ : ∃ n, fuel = n + 1 := ⟨fuel - 1, by omega⟩
  have hinner := h rest fuel (by omega)
  rw [readOperand, hinner]
  rfl

end Laws

end Lua

end JokerScript
