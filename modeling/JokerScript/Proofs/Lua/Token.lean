import Mathlib.Data.List.TakeDrop
import JokerScript.Lua.Identifier
import JokerScript.Lua.Render
import JokerScript.Text.Pieces

/-!
# Reading Tokens

A text of Lua is read as tokens first: blanks and comments go, and each token is as long as
it can be. The reader takes words, decimal numerals, quoted strings and symbols as Lua does.
It refuses what generated expressions never hold: long brackets, hexadecimal numerals and
numeric escapes.

## Main definitions

* `Lua.Token`, `Lua.lex` — tokens, and the tokens of a text.
* `Lua.Lexes`, `Lua.LexesFreely` — a piece of text is just these tokens.

## Main results

* `Lua.Lexes.append`, `Lua.LexesFreely.append` — pieces in a row.
* `Lua.lexes_identifier`, `Lua.lexes_decimal`, `Lua.lexesFreely_quote` — words, numerals
  and strings.
-/

namespace JokerScript

namespace Lua

/-! ### Tokens -/

/-- A **token**. The operators `and` and `or` are words in a text; the minus sign stands for
the unary operator, too. -/
inductive Token
  | name (x : String)
  | numeral (text : String)
  | str (s : String)
  | nil
  | bool (b : Bool)
  | not
  | hash
  | binary (op : BinaryOp)
  | openParen
  | closeParen
  | openBrace
  | closeBrace
  | comma
  | dot
  | colon
  | equals
  /-- A word or a symbol that no generated expression holds. -/
  | other (text : String)
deriving DecidableEq

/-- The token of a unary operator. -/
def UnaryOp.token : UnaryOp → Token
  | not => .not
  | neg => .binary .sub
  | len => .hash

/-- The reserved words that expressions are made of. -/
def expressionWords : List (String × Token) :=
  [("nil", .nil), ("true", .bool true), ("false", .bool false), ("not", .not),
    ("and", .binary .and), ("or", .binary .or)]

/-- The token of a word. -/
def wordToken (w : String) : Token :=
  if keywords.contains w then (expressionWords.lookup w).getD (.other w) else .name w

/-- The symbols; a longer one comes before those that it begins with. -/
def symbols : List (String × Token) :=
  [("...", .other "..."), ("..", .binary .concat), ("==", .binary .eq), ("~=", .binary .ne),
    ("<=", .binary .le), (">=", .binary .ge), ("::", .other "::"), ("+", .binary .add),
    ("-", .binary .sub), ("*", .binary .mul), ("/", .binary .div), ("%", .other "%"),
    ("^", .other "^"), ("#", .hash), ("<", .binary .lt), (">", .binary .gt), ("=", .equals),
    ("(", .openParen), (")", .closeParen), ("\x7b", .openBrace), ("\x7d", .closeBrace),
    ("[", .other "["), ("]", .other "]"), (";", .other ";"), (":", .colon), (",", .comma),
    (".", .dot)]

/-- The symbol that a text begins with, and what follows it. -/
def symbolToken? (cs : List Char) : Option (Token × List Char) :=
  symbols.findSome? fun p => (afterLead? p.1.toList cs).map fun rest => (p.2, rest)

/-! ### Numerals and strings -/

/-- May the character stand in a numeral before its exponent? -/
def isMantissaChar (c : Char) : Bool := c.isDigit || c == '.'

/-- The mark of an exponent, with its sign, and what follows it. -/
def exponentMark : List Char → List Char × List Char
  | [] => ([], [])
  | c :: cs =>
    if c = 'e' ∨ c = 'E' then
      match cs with
      | '+' :: rest => ([c, '+'], rest)
      | '-' :: rest => ([c, '-'], rest)
      | rest => ([c], rest)
    else
      ([], c :: cs)

/-- All that looks like a part of the numeral that a text begins with. -/
def numeralChars (cs : List Char) : List Char :=
  cs.takeWhile isMantissaChar ++ (exponentMark (cs.dropWhile isMantissaChar)).1 ++
    (exponentMark (cs.dropWhile isMantissaChar)).2.takeWhile isNameChar

/-- What follows the numeral that a text begins with. -/
def afterNumeral (cs : List Char) : List Char :=
  (exponentMark (cs.dropWhile isMantissaChar)).2.dropWhile isNameChar

/-- The numeral that a text begins with, and what follows it. -/
def numeralToken? (cs : List Char) : Option (Token × List Char) :=
  if (Number.readUnsigned? false (numeralChars cs)).isSome then
    some (.numeral (String.ofList (numeralChars cs)), afterNumeral cs)
  else
    none

/-- The character that an escape stands for. -/
def escaped? : Char → Option Char
  | 'n' => some '\n'
  | 'r' => some '\r'
  | 't' => some '\t'
  | 'a' => some '\x07'
  | 'b' => some '\x08'
  | 'f' => some '\x0c'
  | 'v' => some '\x0b'
  | '\\' => some '\\'
  | '"' => some '"'
  | '\'' => some '\''
  | '\n' => some '\n'
  | _ => none

/-- The string up to the quote that ends it, and what follows. It stays on one line. -/
def readQuoted (quote : Char) : List Char → Option (List Char × List Char)
  | [] => none
  | [c] => if c = quote then some ([], []) else none
  | c :: d :: cs =>
    if c = quote then
      some ([], d :: cs)
    else if c = '\\' then
      (escaped? d).bind fun e => (readQuoted quote cs).map fun (s, rest) => (e :: s, rest)
    else if c = '\n' ∨ c = '\r' then
      none
    else
      (readQuoted quote (d :: cs)).map fun (s, rest) => (c :: s, rest)

/-! ### Texts -/

/-- The blanks of Lua. -/
def isBlank (c : Char) : Bool := c ∈ [' ', '\t', '\n', '\r', '\x0b', '\x0c']

/-- What a text begins with, and what follows it: a token, or a blank or a comment that is
none. -/
def nextToken (c : Char) (cs : List Char) : Option (Option Token × List Char) :=
  if isBlank c then
    some (none, cs)
  else if isNameStart c then
    some (some (wordToken (String.ofList (c :: cs.takeWhile isNameChar))),
      cs.dropWhile isNameChar)
  else if c.isDigit || (c == '.' && cs.head?.any Char.isDigit) then
    (numeralToken? (c :: cs)).map fun (t, rest) => (some t, rest)
  else if c = '"' ∨ c = '\'' then
    (readQuoted c cs).map fun (s, rest) => (some (.str (String.ofList s)), rest)
  else
    match afterLead? ['-', '-'] (c :: cs) with
    | some rest =>
      if rest.head? = some '[' then none else some (none, rest.dropWhile (· != '\n'))
    | none => (symbolToken? (c :: cs)).map fun (t, rest) => (some t, rest)

theorem length_afterLead? {lead cs rest : List Char} (h : afterLead? lead cs = some rest) :
    cs.length = lead.length + rest.length := by
  induction lead generalizing cs with
  | nil =>
      obtain rfl := Option.some.inj h
      rw [List.length_nil, Nat.zero_add]
  | cons l lead ih =>
      cases cs with
      | nil => cases h
      | cons c cs =>
          rw [afterLead?] at h
          split at h
          · rw [List.length_cons, List.length_cons, ih h]
            omega
          · cases h

theorem length_symbolToken? {cs rest : List Char} {t : Token}
    (h : symbolToken? cs = some (t, rest)) : rest.length < cs.length := by
  have hpos : ∀ p ∈ symbols, 0 < p.1.toList.length := by decide
  obtain ⟨p, hp, hsome⟩ := List.exists_of_findSome?_eq_some h
  rw [Option.map_eq_some_iff] at hsome
  obtain ⟨after, hafter, heq⟩ := hsome
  obtain ⟨-, rfl⟩ := Prod.mk.inj heq
  have hlength := length_afterLead? hafter
  have := hpos p hp
  omega

theorem length_exponentMark (cs : List Char) : (exponentMark cs).2.length ≤ cs.length := by
  fun_cases exponentMark cs <;> simp <;> omega

theorem length_readQuoted {quote : Char} {cs s rest : List Char}
    (h : readQuoted quote cs = some (s, rest)) : rest.length < cs.length := by
  induction cs using readQuoted.induct quote generalizing s with
  | case1 => cases h
  | case2 =>
      rw [readQuoted, if_pos rfl] at h
      obtain ⟨-, rfl⟩ := Prod.mk.inj (Option.some.inj h)
      exact Nat.zero_lt_one
  | case3 c hc =>
      rw [readQuoted, if_neg hc] at h
      cases h
  | case4 d cs =>
      rw [readQuoted, if_pos rfl] at h
      obtain ⟨-, rfl⟩ := Prod.mk.inj (Option.some.inj h)
      exact Nat.lt_succ_self _
  | case5 d cs hc ih =>
      rw [readQuoted, if_neg hc, if_pos rfl, Option.bind_eq_some_iff] at h
      obtain ⟨e, -, h⟩ := h
      obtain ⟨⟨s', rest'⟩, hread, heq⟩ := Option.map_eq_some_iff.mp h
      obtain ⟨-, rfl⟩ := Prod.mk.inj heq
      have := ih hread
      rw [List.length_cons, List.length_cons]
      omega
  | case6 c d cs hc hslash hbreak =>
      rw [readQuoted, if_neg hc, if_neg hslash, if_pos hbreak] at h
      cases h
  | case7 c d cs hc hslash hbreak ih =>
      rw [readQuoted, if_neg hc, if_neg hslash, if_neg hbreak, Option.map_eq_some_iff] at h
      obtain ⟨⟨s', rest'⟩, hread, heq⟩ := h
      obtain ⟨-, rfl⟩ := Prod.mk.inj heq
      have := ih hread
      rw [List.length_cons]
      omega

theorem length_dropWhile_le (p : Char → Bool) (cs : List Char) :
    (cs.dropWhile p).length ≤ cs.length :=
  (List.dropWhile_sublist p).length_le

theorem length_numeralToken? {cs rest : List Char} {t : Token}
    (h : numeralToken? cs = some (t, rest)) :
    rest.length ≤ (cs.dropWhile isMantissaChar).length := by
  rw [numeralToken?] at h
  split at h
  · obtain ⟨-, rfl⟩ := Prod.mk.inj (Option.some.inj h)
    exact Nat.le_trans (length_dropWhile_le _ _) (length_exponentMark _)
  · cases h

/-- Each token, blank or comment takes a part of the text. -/
theorem length_nextToken {c : Char} {cs rest : List Char} {t : Option Token}
    (h : nextToken c cs = some (t, rest)) : rest.length ≤ cs.length := by
  rw [nextToken] at h
  split at h
  · obtain ⟨-, rfl⟩ := Prod.mk.inj (Option.some.inj h)
    exact Nat.le_refl _
  · split at h
    · obtain ⟨-, rfl⟩ := Prod.mk.inj (Option.some.inj h)
      exact length_dropWhile_le isNameChar cs
    · split at h
      · rename_i hnumeral
        obtain ⟨⟨t', after⟩, hread, heq⟩ := Option.map_eq_some_iff.mp h
        obtain ⟨-, rfl⟩ := Prod.mk.inj heq
        have hc : isMantissaChar c = true := by
          rw [Bool.or_eq_true, Bool.and_eq_true] at hnumeral
          rw [isMantissaChar, Bool.or_eq_true]
          exact hnumeral.imp_right fun hdot => hdot.1
        have hlength := length_numeralToken? hread
        rw [List.dropWhile_cons_of_pos hc] at hlength
        exact Nat.le_trans hlength (length_dropWhile_le _ _)
      · split at h
        · obtain ⟨⟨s, after⟩, hread, heq⟩ := Option.map_eq_some_iff.mp h
          obtain ⟨-, rfl⟩ := Prod.mk.inj heq
          exact Nat.le_of_lt (length_readQuoted hread)
        · split at h
          · rename_i after hcomment
            have hlength := length_afterLead? hcomment
            have hrest := length_dropWhile_le (· != '\n') after
            split at h
            · cases h
            · obtain ⟨-, rfl⟩ := Prod.mk.inj (Option.some.inj h)
              rw [List.length_cons, List.length_cons, List.length_singleton] at hlength
              omega
          · obtain ⟨⟨t', after⟩, hsymbol, heq⟩ := Option.map_eq_some_iff.mp h
            obtain ⟨-, rfl⟩ := Prod.mk.inj heq
            have hlength := length_symbolToken? hsymbol
            rw [List.length_cons] at hlength
            omega

/-- **The tokens of a text.** -/
def lex : List Char → Option (List Token)
  | [] => some []
  | c :: cs =>
    match h : nextToken c cs with
    | some (t, rest) =>
      have : rest.length ≤ cs.length := length_nextToken h
      (lex rest).map (t.toList ++ ·)
    | none => none
termination_by cs => cs.length
decreasing_by exact Nat.lt_succ_of_le this

theorem lex_nil : lex [] = some [] := by
  rw [lex]

theorem lex_cons {c : Char} {cs rest : List Char} {t : Option Token}
    (h : nextToken c cs = some (t, rest)) :
    lex (c :: cs) = (lex rest).map (t.toList ++ ·) := by
  rw [lex]
  split
  · rename_i t' rest' h'
    obtain ⟨rfl, rfl⟩ := Prod.mk.inj (Option.some.inj (h.symm.trans h'))
    rfl
  · rename_i h'
    cases h.symm.trans h'

/-! ### Pieces of texts -/

/-- The text does not go on with a word or a numeral that stands before it. -/
def Ends (rest : List Char) : Prop := ∀ c ∈ rest.head?, isNameChar c = false ∧ c ≠ '.'

/-- The piece is just the tokens, if the text ends there or goes on with something else. -/
def Lexes (cs : List Char) (ts : List Token) : Prop :=
  ∀ rest, Ends rest → lex (cs ++ rest) = (lex rest).map (ts ++ ·)

/-- The piece is just the tokens, whatever follows. -/
def LexesFreely (cs : List Char) (ts : List Token) : Prop :=
  ∀ rest, lex (cs ++ rest) = (lex rest).map (ts ++ ·)

/-- The piece begins with a character that ends words and numerals. -/
def BeginsApart (cs : List Char) : Prop := ∃ c rest, cs = c :: rest ∧ isNameChar c = false ∧ c ≠ '.'

theorem BeginsApart.ends {cs : List Char} (h : BeginsApart cs) (rest : List Char) :
    Ends (cs ++ rest) := by
  obtain ⟨c, cs, rfl, hc⟩ := h
  intro d hd
  obtain rfl := Option.some.inj hd
  exact hc

theorem map_append_map (o : Option (List Token)) (ts us : List Token) :
    (o.map (us ++ ·)).map (ts ++ ·) = o.map (ts ++ us ++ ·) := by
  cases o with
  | none => rfl
  | some vs => simp

namespace LexesFreely

variable {a b : List Char} {ts us : List Token}

theorem lexes (h : LexesFreely a ts) : Lexes a ts := fun rest _ => h rest

theorem nil : LexesFreely [] [] := by
  intro rest
  rw [List.nil_append]
  cases lex rest <;> rfl

/-- One character that is skipped, or is a token of its own. -/
theorem cons {c : Char} {t : Option Token} (hc : ∀ rest, nextToken c rest = some (t, rest))
    (h : LexesFreely a ts) : LexesFreely (c :: a) (t.toList ++ ts) := by
  intro rest
  rw [List.cons_append, lex_cons (hc (a ++ rest)), h rest, map_append_map]

theorem append (ha : LexesFreely a ts) (hb : LexesFreely b us) :
    LexesFreely (a ++ b) (ts ++ us) := by
  intro rest
  rw [List.append_assoc, ha, hb, map_append_map]

theorem append_lexes (ha : LexesFreely a ts) (hb : Lexes b us) : Lexes (a ++ b) (ts ++ us) := by
  intro rest hrest
  rw [List.append_assoc, ha, hb rest hrest, map_append_map]

end LexesFreely

namespace Lexes

variable {a b : List Char} {ts us : List Token}

/-- A piece before one that begins apart. -/
theorem append (ha : Lexes a ts) (hapart : BeginsApart b) (hb : Lexes b us) :
    Lexes (a ++ b) (ts ++ us) := by
  intro rest hrest
  rw [List.append_assoc, ha _ (hapart.ends rest), hb rest hrest, map_append_map]

theorem append_freely (ha : Lexes a ts) (hapart : BeginsApart b) (hb : LexesFreely b us) :
    LexesFreely (a ++ b) (ts ++ us) := by
  intro rest
  rw [List.append_assoc, ha _ (hapart.ends rest), hb rest, map_append_map]

end Lexes

/-! ### Symbols -/

/-- A symbol between blanks. -/
theorem lexesFreely_spaced (c : Char) (cs : List Char) {t : Token}
    (h : ∀ rest, nextToken c (cs ++ ' ' :: rest) = some (some t, ' ' :: rest)) :
    LexesFreely (' ' :: c :: cs ++ [' ']) [t] := by
  have hblank : ∀ rest, nextToken ' ' rest = some (none, rest) := fun _ => rfl
  intro rest
  calc lex (' ' :: c :: cs ++ [' '] ++ rest)
      = lex (' ' :: c :: (cs ++ ' ' :: rest)) := by simp
    _ = (((lex rest).map ((none : Option Token).toList ++ ·)).map
          ((some t).toList ++ ·)).map ((none : Option Token).toList ++ ·) := by
        rw [lex_cons (hblank _), lex_cons (h rest), lex_cons (hblank rest)]
    _ = (lex rest).map ([t] ++ ·) := by
        rw [map_append_map, map_append_map]
        rfl

/-- Between blanks stands an operator. -/
theorem lexesFreely_operator (op : BinaryOp) :
    LexesFreely (' ' :: op.symbol.toList ++ [' ']) [.binary op] := by
  have hsymbol : ∃ c cs, op.symbol.toList = c :: cs ∧
      ∀ rest, nextToken c (cs ++ ' ' :: rest) = some (some (.binary op), ' ' :: rest) := by
    cases op <;> exact ⟨_, _, rfl, fun _ => rfl⟩
  obtain ⟨c, cs, hlist, hnext⟩ := hsymbol
  rw [hlist]
  exact lexesFreely_spaced c cs hnext

/-- Between blanks stands the equals sign of a field. -/
theorem lexesFreely_equals : LexesFreely " = ".toList [.equals] :=
  lexesFreely_spaced '=' [] fun _ => rfl

/-- A symbol that is a token of its own, whatever follows. -/
theorem lexesFreely_symbol {c : Char} {t : Token}
    (h : ∀ rest, nextToken c rest = some (some t, rest)) : LexesFreely [c] [t] :=
  LexesFreely.nil.cons h

theorem lexesFreely_comma : LexesFreely ", ".toList [.comma] := by
  have hcomma : ∀ rest, nextToken ',' rest = some (some .comma, rest) := fun _ => rfl
  have hblank : ∀ rest, nextToken ' ' rest = some (none, rest) := fun _ => rfl
  exact (LexesFreely.nil.cons hblank).cons hcomma

/-- A piece between two symbols. -/
theorem Lexes.enclosed {o c : Char} {s t : Token} {cs : List Char} {ts : List Token}
    (h : Lexes cs ts) (ho : ∀ rest, nextToken o rest = some (some s, rest))
    (hc : ∀ rest, nextToken c rest = some (some t, rest))
    (hapart : isNameChar c = false ∧ c ≠ '.') : LexesFreely (o :: cs ++ [c]) (s :: ts ++ [t]) := by
  have hclosed := h.append_freely ⟨c, [], rfl, hapart⟩ (lexesFreely_symbol hc)
  exact (lexesFreely_symbol ho).append hclosed

theorem Lexes.parens {cs : List Char} {ts : List Token} (h : Lexes cs ts) :
    LexesFreely ('(' :: cs ++ [')']) (.openParen :: ts ++ [.closeParen]) :=
  h.enclosed (fun _ => rfl) (fun _ => rfl) ⟨rfl, by simp⟩

theorem beginsApart_parens (cs : List Char) : BeginsApart ('(' :: cs ++ [')']) :=
  ⟨'(', cs ++ [')'], rfl, rfl, by simp⟩

theorem Lexes.braces {cs : List Char} {ts : List Token} (h : Lexes cs ts) :
    LexesFreely ('\x7b' :: cs ++ ['\x7d']) (.openBrace :: ts ++ [.closeBrace]) :=
  h.enclosed (fun _ => rfl) (fun _ => rfl) ⟨rfl, by simp⟩

theorem lexesFreely_not : LexesFreely "not ".toList [.not] := by
  have hnot : ∀ rest, nextToken 'n' ('o' :: 't' :: ' ' :: rest) = some (some .not, ' ' :: rest) :=
    fun _ => rfl
  have hblank : ∀ rest, nextToken ' ' rest = some (none, rest) := fun _ => rfl
  intro rest
  calc lex ("not ".toList ++ rest) = lex ('n' :: 'o' :: 't' :: ' ' :: rest) := rfl
    _ = ((lex rest).map ((none : Option Token).toList ++ ·)).map
          ((some Token.not).toList ++ ·) := by
        rw [lex_cons (hnot rest), lex_cons (hblank rest)]
    _ = (lex rest).map ([.not] ++ ·) := by
        rw [map_append_map]
        rfl

/-- A minus sign is an operator, unless another one follows and begins a comment. -/
theorem lex_minus {cs : List Char} (h : cs.head? ≠ some '-') :
    lex ('-' :: cs) = (lex cs).map ([.binary .sub] ++ ·) := by
  have hnext : nextToken '-' cs = some (some (.binary .sub), cs) := by
    cases cs with
    | nil => rfl
    | cons c cs =>
        have hc : '-' ≠ c := fun heq => h (by rw [heq]; rfl)
        have hcomment : afterLead? ['-', '-'] ('-' :: c :: cs) = none := by
          rw [afterLead?, if_pos rfl, afterLead?, if_neg hc]
        have hsymbol : symbolToken? ('-' :: c :: cs) = some (.binary .sub, c :: cs) := rfl
        calc nextToken '-' (c :: cs)
            = (match afterLead? ['-', '-'] ('-' :: c :: cs) with
              | some rest =>
                if rest.head? = some '[' then none else some (none, rest.dropWhile (· != '\n'))
              | none => (symbolToken? ('-' :: c :: cs)).map fun (t, rest) => (some t, rest)) := rfl
          _ = some (some (.binary .sub), c :: cs) := by
              rw [hcomment, hsymbol]
              rfl
  rw [lex_cons hnext]
  rfl

/-! ### Words -/

/-- What a list of characters begins with, if the rest does not go on with it. -/
theorem takeWhile_append_of_head {p : Char → Bool} (cs rest : List Char)
    (hcs : ∀ c ∈ cs, p c = true) (hrest : ∀ c ∈ rest.head?, p c = false) :
    (cs ++ rest).takeWhile p = cs ∧ (cs ++ rest).dropWhile p = rest := by
  rw [List.takeWhile_append_of_pos hcs, List.dropWhile_append_of_pos hcs]
  cases rest with
  | nil => exact ⟨List.append_nil cs, rfl⟩
  | cons c rest =>
      have hc : ¬ p c = true := by rw [hrest c rfl]; exact Bool.false_ne_true
      rw [List.takeWhile_cons_of_neg hc, List.dropWhile_cons_of_neg hc, List.append_nil]
      exact ⟨rfl, rfl⟩

theorem notMem_of_isNameStart {c : Char} (h : isNameStart c = true) {cs : List Char}
    (hcs : ∀ d ∈ cs, isNameStart d = false) : c ∉ cs := by
  intro hmem
  rw [hcs c hmem] at h
  cases h

/-- A word. -/
theorem lex_word {w : String} (h : isNameShape w.toList = true) {rest : List Char}
    (hrest : ∀ c ∈ rest.head?, isNameChar c = false) :
    lex (w.toList ++ rest) = (lex rest).map ([wordToken w] ++ ·) := by
  obtain ⟨c, cs, hlist⟩ : ∃ c cs, w.toList = c :: cs := by
    cases hw : w.toList with
    | nil => rw [hw] at h; cases h
    | cons c cs => exact ⟨c, cs, rfl⟩
  rw [hlist, isNameShape, Bool.and_eq_true, List.all_eq_true] at h
  obtain ⟨hstart, hall⟩ := h
  obtain ⟨htake, hdrop⟩ := takeWhile_append_of_head cs rest hall hrest
  have hblank : isBlank c = false := by
    rw [isBlank, decide_eq_false_iff_not]
    exact notMem_of_isNameStart hstart (by simp [isNameStart])
  have hw : String.ofList (c :: cs) = w := by rw [← hlist, String.ofList_toList]
  have hnext : nextToken c (cs ++ rest) = some (some (wordToken w), rest) := by
    rw [nextToken, hblank, if_neg Bool.false_ne_true, if_pos hstart, htake, hdrop, hw]
  rw [hlist, List.cons_append, lex_cons hnext]
  rfl

theorem wordToken_of_isIdentifier {x : String} (h : isIdentifier x = true) :
    wordToken x = .name x := by
  rw [isIdentifier, Bool.and_eq_true, Bool.not_eq_true'] at h
  rw [wordToken, h.2, if_neg Bool.false_ne_true]

/-- An identifier. -/
theorem lex_identifier {x : String} (h : isIdentifier x = true) {rest : List Char}
    (hrest : ∀ c ∈ rest.head?, isNameChar c = false) :
    lex (x.toList ++ rest) = (lex rest).map ([.name x] ++ ·) := by
  have hshape : isNameShape x.toList = true := by
    rw [isIdentifier, Bool.and_eq_true] at h
    exact h.1
  rw [lex_word hshape hrest, wordToken_of_isIdentifier h]

theorem lexes_identifier {x : String} (h : isIdentifier x = true) : Lexes x.toList [.name x] :=
  fun _ hrest => lex_identifier h fun c hc => (hrest c hc).1

/-- An identifier begins with a letter or an underscore. -/
theorem exists_toList_of_isIdentifier {x : String} (h : isIdentifier x = true) :
    ∃ c cs, x.toList = c :: cs ∧ isNameStart c = true := by
  rw [isIdentifier, Bool.and_eq_true] at h
  cases hx : x.toList with
  | nil =>
      rw [hx] at h
      cases h.1
  | cons c cs =>
      rw [hx, isNameShape, Bool.and_eq_true] at h
      exact ⟨c, cs, rfl, h.1.1⟩

theorem not_isDigit_of_isNameStart {c : Char} (h : isNameStart c = true) : c.isDigit = false := by
  rw [isNameStart, Bool.or_eq_true, beq_iff_eq] at h
  rcases h with halpha | rfl
  · change (decide ('A'.val ≤ c.val ∧ c.val ≤ 'Z'.val) ||
      (decide ('a'.val ≤ c.val) && decide (c.val ≤ 'z'.val))) = true at halpha
    simp only [Bool.or_eq_true, Bool.and_eq_true, decide_eq_true_eq] at halpha
    simp only [Char.isDigit, Bool.and_eq_false_iff, decide_eq_false_iff_not]
    right
    intro hle
    rcases halpha with ⟨hlow, -⟩ | ⟨hlow, -⟩
    · exact absurd (UInt32.le_trans hlow hle) (by simp)
    · exact absurd (UInt32.le_trans hlow hle) (by simp)
  · rfl

/-- A colon before a name. -/
theorem lex_colon {x : String} (h : isIdentifier x = true) (rest : List Char) :
    lex (':' :: (x.toList ++ rest)) = (lex (x.toList ++ rest)).map ([.colon] ++ ·) := by
  obtain ⟨c, cs, hlist, hstart⟩ := exists_toList_of_isIdentifier h
  have hne : ':' ≠ c := by
    rintro rfl
    cases hstart
  have hsymbol : symbolToken? (':' :: c :: (cs ++ rest)) = some (.colon, c :: (cs ++ rest)) := by
    simp [symbolToken?, symbols, afterLead?, hne]
  have hnext : nextToken ':' (c :: (cs ++ rest)) =
      (symbolToken? (':' :: c :: (cs ++ rest))).map fun (t, rest) => (some t, rest) := rfl
  rw [hsymbol] at hnext
  rw [hlist, List.cons_append, lex_cons hnext]
  rfl

/-- A dot before a name. -/
theorem lex_dot {x : String} (h : isIdentifier x = true) (rest : List Char) :
    lex ('.' :: (x.toList ++ rest)) = (lex (x.toList ++ rest)).map ([.dot] ++ ·) := by
  obtain ⟨c, cs, hlist, hstart⟩ := exists_toList_of_isIdentifier h
  have hne : '.' ≠ c := by
    rintro rfl
    cases hstart
  have hsymbol : symbolToken? ('.' :: c :: (cs ++ rest)) = some (.dot, c :: (cs ++ rest)) := by
    simp [symbolToken?, symbols, afterLead?, hne]
  have hnext : nextToken '.' (c :: (cs ++ rest)) =
      if c.isDigit = true then
        (numeralToken? ('.' :: c :: (cs ++ rest))).map fun (t, rest) => (some t, rest)
      else
        (symbolToken? ('.' :: c :: (cs ++ rest))).map fun (t, rest) => (some t, rest) := rfl
  rw [not_isDigit_of_isNameStart hstart, if_neg Bool.false_ne_true, hsymbol] at hnext
  rw [hlist, List.cons_append, lex_cons hnext]
  rfl

/-! ### Numerals -/

/-- A decimal without sign and exponent: digits, and maybe a point and more digits. -/
def IsDecimal (cs : List Char) : Prop :=
  ∃ whole fraction : List Char, whole ≠ [] ∧ (∀ c ∈ whole, c.isDigit = true) ∧
    (∀ c ∈ fraction, c.isDigit = true) ∧ (cs = whole ∨ cs = whole ++ '.' :: fraction)

/-- A decimal is a numeral. -/
theorem IsDecimal.isSome_readUnsigned? {cs : List Char} (h : IsDecimal cs) :
    (Number.readUnsigned? false cs).isSome = true := by
  obtain ⟨whole, fraction, hne, hwhole, hfraction, hcs⟩ := h
  have hempty : whole.isEmpty = false := List.isEmpty_eq_false_iff.mpr hne
  have hpoint : ('.').isDigit = false := rfl
  rcases hcs with rfl | rfl
  · obtain ⟨htake, hdrop⟩ := takeWhile_append_of_head cs [] hwhole nofun
    rw [List.append_nil] at htake hdrop
    simp [Number.readUnsigned?, List.span_eq_takeWhile_dropWhile, htake, hdrop, hempty,
      Number.splitFraction, Number.readExponent?]
  · obtain ⟨htake, hdrop⟩ := takeWhile_append_of_head whole ('.' :: fraction) hwhole
      fun c hc => by
        obtain rfl := Option.some.inj hc
        exact hpoint
    obtain ⟨htake', hdrop'⟩ := takeWhile_append_of_head fraction [] hfraction nofun
    rw [List.append_nil] at htake' hdrop'
    simp [Number.readUnsigned?, List.span_eq_takeWhile_dropWhile, htake, hdrop, hempty,
      Number.splitFraction, htake', hdrop', Number.readExponent?]

theorem exponentMark_of_ends {rest : List Char} (h : Ends rest) :
    exponentMark rest = ([], rest) := by
  cases rest with
  | nil => rfl
  | cons c rest =>
      have hc : ¬(c = 'e' ∨ c = 'E') := by
        rintro (rfl | rfl)
        · exact absurd (h 'e' rfl).1 (by decide)
        · exact absurd (h 'E' rfl).1 (by decide)
      simp [exponentMark, hc]

/-- A decimal is read as one numeral, up to its end. -/
theorem numeralToken?_decimal {cs rest : List Char} (h : IsDecimal cs) (hrest : Ends rest) :
    numeralToken? (cs ++ rest) = some (.numeral (String.ofList cs), rest) := by
  have hmantissa : ∀ c ∈ cs, isMantissaChar c = true := by
    obtain ⟨whole, fraction, -, hwhole, hfraction, hcs⟩ := h
    have hdigit : ∀ c : Char, c.isDigit = true → isMantissaChar c = true := by
      intro c hc
      rw [isMantissaChar, hc, Bool.true_or]
    intro c hc
    rcases hcs with rfl | rfl
    · exact hdigit c (hwhole c hc)
    · rcases List.mem_append.mp hc with hw | hf
      · exact hdigit c (hwhole c hw)
      · rcases List.mem_cons.mp hf with rfl | hf
        · rfl
        · exact hdigit c (hfraction c hf)
  obtain ⟨htake, hdrop⟩ := takeWhile_append_of_head cs rest hmantissa fun c hc => by
    obtain ⟨hname, hpoint⟩ := hrest c hc
    rw [isNameChar, Bool.or_eq_false_iff, Char.isAlphanum, Bool.or_eq_false_iff] at hname
    rw [isMantissaChar, hname.1.2, Bool.false_or, beq_eq_false_iff_ne]
    exact hpoint
  obtain ⟨hnone, hafter⟩ := takeWhile_append_of_head (p := isNameChar) [] rest nofun
    fun c hc => (hrest c hc).1
  rw [List.nil_append] at hnone hafter
  have hchars : numeralChars (cs ++ rest) = cs := by
    rw [numeralChars, htake, hdrop, exponentMark_of_ends hrest, hnone, List.append_nil,
      List.append_nil]
  have hleft : afterNumeral (cs ++ rest) = rest := by
    rw [afterNumeral, hdrop, exponentMark_of_ends hrest, hafter]
  rw [numeralToken?, hchars, hleft, if_pos h.isSome_readUnsigned?]

theorem lexes_decimal {cs : List Char} (h : IsDecimal cs) :
    Lexes cs [.numeral (String.ofList cs)] := by
  intro rest hrest
  have htoken := numeralToken?_decimal h hrest
  obtain ⟨c, tail, hcs, hdigit⟩ : ∃ c tail, cs = c :: tail ∧ c.isDigit = true := by
    obtain ⟨whole, fraction, hne, hwhole, -, hcs⟩ := h
    obtain ⟨c, whole, rfl⟩ := List.exists_cons_of_ne_nil hne
    have hc := hwhole c List.mem_cons_self
    rcases hcs with rfl | rfl
    · exact ⟨c, whole, rfl, hc⟩
    · exact ⟨c, whole ++ '.' :: fraction, rfl, hc⟩
  have hblank : isBlank c = false := by
    rw [isBlank, decide_eq_false_iff_not]
    intro hmem
    have hall : ∀ d ∈ [' ', '\t', '\n', '\r', '\x0b', '\x0c'], d.isDigit = false := by simp
    rw [hall c hmem] at hdigit
    cases hdigit
  have hstart : isNameStart c = false := by
    cases hs : isNameStart c with
    | false => rfl
    | true =>
        rw [not_isDigit_of_isNameStart hs] at hdigit
        cases hdigit
  have hnext : nextToken c (tail ++ rest) =
      some (some (.numeral (String.ofList cs)), rest) := by
    rw [hcs, List.cons_append] at htoken
    rw [nextToken, hblank, if_neg Bool.false_ne_true, hstart, if_neg Bool.false_ne_true, hdigit,
      Bool.true_or, if_pos rfl, htoken, hcs]
    rfl
  rw [hcs, List.cons_append, lex_cons hnext, hcs]
  rfl

/-! ### Strings -/

/-- An escaped string is read back, up to its quote. -/
theorem readQuoted_escaped (cs rest : List Char) :
    readQuoted '"' (cs.flatMap escapeChar ++ '"' :: rest) = some (cs, rest) := by
  induction cs with
  | nil =>
      cases rest with
      | nil => rfl
      | cons d rest => rfl
  | cons c cs ih =>
      have hescape : ∀ e : Char, escaped? e = some c → escapeChar c = ['\\', e] →
          readQuoted '"' ((c :: cs).flatMap escapeChar ++ '"' :: rest) = some (c :: cs, rest) := by
        intro e he hc
        have hquote : '\\' ≠ '"' := by simp
        rw [List.flatMap_cons, hc, List.append_assoc, List.cons_append, List.cons_append,
          List.nil_append, readQuoted, if_neg hquote, if_pos rfl, he, ih]
        rfl
      by_cases hslash : c = '\\'
      · subst hslash
        exact hescape '\\' rfl rfl
      by_cases hquote : c = '"'
      · subst hquote
        exact hescape '"' rfl rfl
      by_cases hnewline : c = '\n'
      · subst hnewline
        exact hescape 'n' rfl rfl
      by_cases hreturn : c = '\r'
      · subst hreturn
        exact hescape 'r' rfl rfl
      by_cases htab : c = '\t'
      · subst htab
        exact hescape 't' rfl rfl
      have hplain : escapeChar c = [c] := by
        rw [escapeChar, if_neg hslash, if_neg hquote, if_neg hnewline, if_neg hreturn, if_neg htab]
      have hbreak : ¬(c = '\n' ∨ c = '\r') := not_or.mpr ⟨hnewline, hreturn⟩
      obtain ⟨d, tail, htail⟩ : ∃ d tail, cs.flatMap escapeChar ++ '"' :: rest = d :: tail := by
        cases hcs : cs.flatMap escapeChar with
        | nil => exact ⟨'"', rest, rfl⟩
        | cons d tail => exact ⟨d, tail ++ '"' :: rest, rfl⟩
      rw [List.flatMap_cons, hplain, List.append_assoc, List.cons_append, List.nil_append, htail,
        readQuoted, if_neg hquote, if_neg hslash, if_neg hbreak, ← htail, ih]
      rfl

/-- A quoted string. -/
theorem lexesFreely_quote (s : String) : LexesFreely (quote s).toList [.str s] := by
  intro rest
  have hlist : (quote s).toList ++ rest = '"' :: (s.toList.flatMap escapeChar ++ '"' :: rest) := by
    simp [quote]
  have hnext : nextToken '"' (s.toList.flatMap escapeChar ++ '"' :: rest) =
      some (some (.str s), rest) := by
    have hread : nextToken '"' (s.toList.flatMap escapeChar ++ '"' :: rest) =
        (readQuoted '"' (s.toList.flatMap escapeChar ++ '"' :: rest)).map
          fun (t, rest) => (some (.str (String.ofList t)), rest) := rfl
    have hs : String.ofList s.toList = s := String.ofList_toList
    rw [hread, readQuoted_escaped]
    exact congrArg (fun t => some (some (Token.str t), rest)) hs
  rw [hlist, lex_cons hnext]
  rfl

end Lua

end JokerScript
