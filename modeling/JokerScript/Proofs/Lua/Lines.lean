import JokerScript.Lua.Render

/-!
# Lines and Indentation

The line breaks of a layout know how deep they are nested, and only when they are written does
the width of a level come in. So the width reaches nothing but the blanks that a line begins
with: split into lines, each without its leading blanks, a text is the same at every width.

## Main definitions

* `Lua.unindentedLines` — the lines of a text without their leading blanks.
* `Lua.SameLines` — texts that differ in leading blanks alone.

## Main results

* `Lua.Layout.sameLines_toText` — a layout written at two widths.
-/

namespace JokerScript

namespace Lua

/-- The lines of some characters, each without the blanks that it begins with. -/
def unindentedChars (cs : List Char) : List (List Char) :=
  (cs.splitOn '\n').map (List.dropWhile (· == ' '))

/-- The lines of a text, each without the blanks that it begins with. -/
def unindentedLines (s : String) : List String := (unindentedChars s.toList).map String.ofList

/-- The texts have the **same lines**, but for the blanks that lines begin with. -/
def SameLines (s t : String) : Prop := unindentedLines s = unindentedLines t

instance (s t : String) : Decidable (SameLines s t) :=
  inferInstanceAs (Decidable (unindentedLines s = unindentedLines t))

example : SameLines "if a then\n  b()\nend" "if a then\n        b()\nend" := by decide +kernel

example : ¬SameLines "a  b" "a b" := by decide +kernel

/-- A line break ends a line. -/
theorem unindentedChars_append_newline (xs ys : List Char) :
    unindentedChars (xs ++ '\n' :: ys) = unindentedChars xs ++ unindentedChars ys := by
  have hsplit : (xs ++ '\n' :: ys).splitOn '\n' = xs.splitOn '\n' ++ ys.splitOn '\n' :=
    List.splitOnP_append_cons xs ys (by simp)
  rw [unindentedChars, hsplit, List.map_append, unindentedChars, unindentedChars]

/-- Blanks at the beginning of a text are blanks at the beginning of its first line. -/
theorem unindentedChars_replicate_append (n : Nat) (cs : List Char) :
    unindentedChars (List.replicate n ' ' ++ cs) = unindentedChars cs := by
  induction n with
  | zero => rfl
  | succ n ih =>
      rw [← ih, List.replicate_succ, List.cons_append]
      generalize List.replicate n ' ' ++ cs = rest
      have hblank : (' ' :: rest).splitOn '\n' =
          (rest.splitOn '\n').modifyHead (List.cons ' ') := by
        simp [List.splitOn, List.splitOnP_cons_eq_if_modifyHead]
      rw [unindentedChars, hblank, unindentedChars]
      cases rest.splitOn '\n' with
      | nil => rfl
      | cons line lines => simp

namespace Layout

/-- The lines of a layout after the characters of an unfinished line, at two widths. -/
theorem unindentedChars_append_flatMap (layout : Layout) (w w' : Nat) (xs : List Char) :
    unindentedChars (xs ++ layout.flatMap (Piece.chars w)) =
      unindentedChars (xs ++ layout.flatMap (Piece.chars w')) := by
  -- A text goes on with the unfinished line, and a break begins a new one, at any blank of it.
  induction layout generalizing xs with
  | nil => rfl
  | cons piece layout ih =>
      rw [List.flatMap_cons, List.flatMap_cons]
      cases piece with
      | text s =>
          rw [Piece.chars, Piece.chars, ← List.append_assoc, ← List.append_assoc]
          exact ih (xs ++ s.toList)
      | line depth =>
          have hbreak : ∀ v, unindentedChars
              (xs ++ ((Piece.line depth).chars v ++ layout.flatMap (Piece.chars v))) =
              unindentedChars xs ++ unindentedChars (layout.flatMap (Piece.chars v)) := by
            intro v
            rw [Piece.chars, List.cons_append, unindentedChars_append_newline,
              unindentedChars_replicate_append]
          rw [hbreak, hbreak]
          exact congrArg (unindentedChars xs ++ ·) (ih [])

/-- **The width of a level reaches nothing but the blanks that lines begin with.** -/
theorem sameLines_toText (layout : Layout) (w w' : Nat) :
    SameLines (layout.toText w) (layout.toText w') := by
  have h := layout.unindentedChars_append_flatMap w w' []
  rw [SameLines, unindentedLines, unindentedLines, toText, toText, String.toList_ofList,
    String.toList_ofList]
  exact congrArg (List.map String.ofList) h

end Layout

end Lua

end JokerScript
