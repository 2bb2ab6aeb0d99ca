import Mathlib.Data.List.Basic
import JokerScript.Proofs.Lua.Token

/-!
# Short Strings

A short string of Lua stands between two equal quotes, on one line. A backslash and the
character after it stand for one character; everything else stands for itself. Dialects differ
in what more they read after a backslash (a number, a line break, a skip over blanks), so the
rules take those **further escapes** as a parameter: a literal that needs none of them reads the
same in every dialect, and is no shorter or longer in any.

The quotes that are written here escape a text by replacing one character after another in the
whole text. The backslash comes first: later replacements bring backslashes of their own.

## Main definitions

* `Lua.ReadsBody`, `Lua.ReadsString` — what a short string stands for, and what follows it.
* `Lua.escapedInTurn` — a text after all replacements.

## Main results

* `Lua.escapedInTurn_eq` — no replacement disturbs an earlier one.
* `Lua.readsString_render_str_iff` — a rendered string is read as itself, and only so.
-/

namespace JokerScript

namespace Lua

/-! ### Rules -/

/-- What a dialect reads after a backslash besides the escapes of one character: the text after
the backslash, the characters it stands for, and what follows. -/
abbrev FurtherEscapes := List Char → List Char → List Char → Prop

/-- `ReadsBody further mark cs t rest`: behind a quote `mark`, the text `cs` is the string `t` up
to the next quote, and `rest` follows that quote. -/
inductive ReadsBody (further : FurtherEscapes) (mark : Char) :
    List Char → List Char → List Char → Prop
  | close (rest : List Char) : ReadsBody further mark (mark :: rest) [] rest
  | plain {c : Char} {cs t rest : List Char} (hc : c ∉ [mark, '\\', '\n', '\r'])
      (h : ReadsBody further mark cs t rest) : ReadsBody further mark (c :: cs) (c :: t) rest
  | escape {c e : Char} {cs t rest : List Char} (he : escaped? e = some c) (hline : e ≠ '\n')
      (h : ReadsBody further mark cs t rest) :
      ReadsBody further mark ('\\' :: e :: cs) (c :: t) rest
  | further {e : Char} {cs t after u rest : List Char} (he : escaped? e = none ∨ e = '\n')
      (ht : further (e :: cs) t after) (h : ReadsBody further mark after u rest) :
      ReadsBody further mark ('\\' :: e :: cs) (t ++ u) rest

/-- `ReadsString further cs t rest`: the text `cs` begins with a short string that stands for `t`,
and `rest` follows it. -/
inductive ReadsString (further : FurtherEscapes) : List Char → List Char → List Char → Prop
  | quoted {mark : Char} {cs t rest : List Char} (hmark : mark = '"' ∨ mark = '\'')
      (h : ReadsBody further mark cs t rest) : ReadsString further (mark :: cs) t rest

/-! ### Replacements in turn -/

/-- The text with an image in the place of a character, wherever that character stands. -/
def replaceChar (cs : List Char) (r : Char × List Char) : List Char :=
  cs.flatMap fun d => if d = r.1 then r.2 else [d]

/-- The replacements that escape a text, in their order. -/
def escapeReplacements : List (Char × List Char) :=
  [('\\', ['\\', '\\']), ('"', ['\\', '"']), ('\n', ['\\', 'n']), ('\r', ['\\', 'r']),
    ('\t', ['\\', 't'])]

/-- The text after all replacements, each made in the whole text. -/
def escapedInTurn (cs : List Char) : List Char :=
  escapeReplacements.foldl replaceChar cs

/-- Replacements in the whole text are replacements in each piece of it. -/
theorem foldl_replaceChar_flatMap (rs : List (Char × List Char)) (f : Char → List Char)
    (cs : List Char) :
    rs.foldl replaceChar (cs.flatMap f) = cs.flatMap fun d => rs.foldl replaceChar (f d) := by
  induction rs generalizing f with
  | nil => rfl
  | cons r rs ih =>
      have hstep : replaceChar (cs.flatMap f) r = cs.flatMap fun d => replaceChar (f d) r :=
        List.flatMap_assoc
      rw [List.foldl_cons, hstep, ih]
      rfl

/-- A character is escaped as the replacements escape it. -/
theorem escapedInTurn_singleton (c : Char) : escapedInTurn [c] = escapeChar c := by
  by_cases hspecial : c ∈ escapeReplacements.map Prod.fst
  · rw [escapeReplacements] at hspecial
    simp only [List.map_cons, List.map_nil, List.mem_cons, List.not_mem_nil, or_false] at hspecial
    rcases hspecial with rfl | rfl | rfl | rfl | rfl <;> decide
  · rw [escapeReplacements] at hspecial
    simp only [List.map_cons, List.map_nil, List.mem_cons, List.not_mem_nil, or_false,
      not_or] at hspecial
    obtain ⟨hslash, hquote, hline, hreturn, htab⟩ := hspecial
    have hstay : ∀ {d : Char} {image : List Char}, c ≠ d → replaceChar [c] (d, image) = [c] := by
      intro d image hd
      rw [replaceChar, List.flatMap_singleton, if_neg hd]
    rw [escapeChar, if_neg hslash, if_neg hquote, if_neg hline, if_neg hreturn, if_neg htab,
      escapedInTurn, escapeReplacements]
    simp only [List.foldl_cons, List.foldl_nil, hstay hslash, hstay hquote, hstay hline,
      hstay hreturn, hstay htab]

/-- **No replacement disturbs an earlier one**: made in turn in the whole text, they escape each
character by itself. -/
theorem escapedInTurn_eq (cs : List Char) : escapedInTurn cs = cs.flatMap escapeChar := by
  have hsingle : cs.flatMap (fun c => [c]) = cs := List.flatMap_singleton' cs
  calc escapedInTurn cs = escapedInTurn (cs.flatMap fun c => [c]) := by rw [hsingle]
    _ = cs.flatMap fun c => escapedInTurn [c] := foldl_replaceChar_flatMap _ _ cs
    _ = cs.flatMap escapeChar := List.flatMap_congr fun c _ => escapedInTurn_singleton c

/-! ### Reading what is written -/

/-- A character stands in a string as itself, or behind a backslash as an escape for it. -/
theorem escapeChar_cases (c : Char) :
    (escapeChar c = [c] ∧ c ∉ ['"', '\\', '\n', '\r']) ∨
      ∃ e, escapeChar c = ['\\', e] ∧ escaped? e = some c ∧ e ≠ '\n' := by
  by_cases hslash : c = '\\'
  · exact .inr ⟨'\\', by subst hslash; decide⟩
  by_cases hquote : c = '"'
  · exact .inr ⟨'"', by subst hquote; decide⟩
  by_cases hline : c = '\n'
  · exact .inr ⟨'n', by subst hline; decide⟩
  by_cases hreturn : c = '\r'
  · exact .inr ⟨'r', by subst hreturn; decide⟩
  by_cases htab : c = '\t'
  · exact .inr ⟨'t', by subst htab; decide⟩
  · refine .inl ⟨?_, by simp [hslash, hquote, hline, hreturn]⟩
    rw [escapeChar, if_neg hslash, if_neg hquote, if_neg hline, if_neg hreturn, if_neg htab]

/-- An escaped character is read as that character, and in no other way. -/
theorem readsBody_escapeChar_append_iff (further : FurtherEscapes) (c : Char)
    (cs t rest : List Char) :
    ReadsBody further '"' (escapeChar c ++ cs) t rest ↔
      ∃ u, t = c :: u ∧ ReadsBody further '"' cs u rest := by
  rcases escapeChar_cases c with ⟨himage, hc⟩ | ⟨e, himage, he, hline⟩
  · rw [himage]
    constructor
    · intro h
      cases h with
      | close => simp at hc
      | plain _ h => exact ⟨_, rfl, h⟩
      | escape => simp at hc
      | further => simp at hc
    · rintro ⟨u, rfl, h⟩
      exact .plain hc h
  · rw [himage]
    constructor
    · intro h
      cases h with
      | plain hc => simp at hc
      | escape he' _ h =>
          obtain rfl := Option.some.inj (he.symm.trans he')
          exact ⟨_, rfl, h⟩
      | further he' =>
          rcases he' with he' | rfl
          · rw [he] at he'
            cases he'
          · exact absurd rfl hline
    · rintro ⟨u, rfl, h⟩
      exact .escape he hline h

/-- The quote ends the string. -/
theorem readsBody_close_iff (further : FurtherEscapes) (cs t rest : List Char) :
    ReadsBody further '"' ('"' :: cs) t rest ↔ t = [] ∧ rest = cs := by
  constructor
  · intro h
    cases h with
    | close => exact ⟨rfl, rfl⟩
    | plain hc => simp at hc
  · rintro ⟨rfl, rfl⟩
    exact .close _

/-- An escaped text is read as that text, up to the quote behind it, and in no other way. -/
theorem readsBody_flatMap_iff (further : FurtherEscapes) (s cs t rest : List Char) :
    ReadsBody further '"' (s.flatMap escapeChar ++ '"' :: cs) t rest ↔ t = s ∧ rest = cs := by
  induction s generalizing t with
  | nil => exact readsBody_close_iff further cs t rest
  | cons c s ih =>
      rw [List.flatMap_cons, List.append_assoc, readsBody_escapeChar_append_iff]
      constructor
      · rintro ⟨u, rfl, h⟩
        obtain ⟨rfl, rfl⟩ := (ih u).mp h
        exact ⟨rfl, rfl⟩
      · rintro ⟨rfl, rfl⟩
        exact ⟨s, rfl, (ih s).mpr ⟨rfl, rfl⟩⟩

/-- No escaped character is a line break. -/
theorem notMem_escapeChar_of_lineBreak {b : Char} (hb : b = '\n' ∨ b = '\r') (c : Char) :
    b ∉ escapeChar c := by
  rcases escapeChar_cases c with ⟨himage, hc⟩ | ⟨e, himage, he, hline⟩
  · rw [himage, List.mem_singleton]
    rintro rfl
    rcases hb with rfl | rfl <;> simp at hc
  · have hreturn : e ≠ '\r' := by
      rintro rfl
      cases he
    rw [himage]
    rcases hb with rfl | rfl
    · simp [Ne.symm hline]
    · simp [Ne.symm hreturn]

theorem toList_render_str (s : String) (width : Nat) :
    ((Expr.str s).render width).toList = '"' :: s.toList.flatMap escapeChar ++ ['"'] := by
  simp [Expr.render, Layout.toText, Expr.layout, Piece.chars, quote]

/-- **A rendered string is read as itself, and only so.** Whatever follows it and whatever else a
dialect may escape, the rules of short strings read the whole literal up to its own closing quote
and nothing behind it, they read just the text it was rendered from, and there is no other way to
read it. The literal has no raw line break, and between its quotes stands the text after the
replacements made in turn. -/
theorem readsString_render_str_iff (s : String) (width : Nat) :
    (∀ (further : FurtherEscapes) (following t rest : List Char),
      ReadsString further (((Expr.str s).render width).toList ++ following) t rest ↔
        t = s.toList ∧ rest = following) ∧
    (∀ c ∈ ((Expr.str s).render width).toList, c ≠ '\n' ∧ c ≠ '\r') ∧
    ((Expr.str s).render width).toList = '"' :: escapedInTurn s.toList ++ ['"'] := by
  refine ⟨fun further following t rest => ?_, fun c hc => ?_, ?_⟩
  · rw [toList_render_str, List.append_assoc, List.cons_append, List.singleton_append]
    constructor
    · rintro ⟨-, h⟩
      exact (readsBody_flatMap_iff further _ _ _ _).mp h
    · intro h
      exact .quoted (.inl rfl) ((readsBody_flatMap_iff further _ _ _ _).mpr h)
  · have hplace : c = '"' ∨ ∃ d ∈ s.toList, c ∈ escapeChar d := by
      rw [toList_render_str] at hc
      simpa [or_comm, or_assoc] using hc
    rcases hplace with rfl | ⟨d, -, hd⟩
    · decide
    · constructor
      · rintro rfl
        exact notMem_escapeChar_of_lineBreak (.inl rfl) d hd
      · rintro rfl
        exact notMem_escapeChar_of_lineBreak (.inr rfl) d hd
  · rw [toList_render_str, escapedInTurn_eq]

/-- A quote and a backslash in a row: the quote does not end the string. -/
example : ((Expr.str "\\\"; os.exit() --").render 4) = "\"\\\\\\\"; os.exit() --\"" := by
  decide +kernel

end Lua

end JokerScript
