import JokerScript.Proofs.Condition.Turns
import JokerScript.Proofs.Resolve.Scoped

/-!
# Scopes of Conditions

The code of a condition goes through cards with local variables of its own, and reads nothing
else but the game and the variables of the joker. It is well scoped, with one exception: the
name of a **suit variable** is put into a path as the author wrote it. Whether the code is well
scoped, whether its paths are dotted at all, and whether the paths of the suit variables are,
is one question.

## Main definitions

* `SuitChoice.suitVariable?`, `Rule.suitVariables` — the suit variables that conditions read.
* `suitPath` — where the game keeps the card of a suit variable.

## Main results

* `isDotted_suitPath_eq`, `isDotted_suitPath` — when the path of a name is dotted.
* `Condition.isScoped_written`, `Condition.suitPath_of_usesAll_written` — the code of a
  condition.
* `Lua.JoinsTo.isScoped` — the code of all conditions.
-/

namespace JokerScript

open Lua

/-! ### Suit variables -/

/-- The suit variable that a choice reads, if it reads one. -/
def SuitChoice.suitVariable? (joker : Joker) : SuitChoice → Option String
  | .coloured _ => none
  | .named name => if joker.hasSuitVariable name then some name else none

/-- Where the game keeps the suit of the card of a suit variable. -/
def suitPath (name : String) : String := "G.GAME.current_round." ++ name ++ "_card.suit"

/-- The suit variables that the conditions of a rule read, in order. -/
def Rule.suitVariables (joker : Joker) (rule : Rule) : List String :=
  rule.conditions.filterMap fun c => c.test.choice.suitVariable? joker

theorem SuitReading.ofChoice_of_some {joker : Joker} {choice : SuitChoice} {name : String}
    (h : choice.suitVariable? joker = some name) :
    SuitReading.ofChoice joker choice = .stored (.path (suitPath name)) := by
  cases choice with
  | coloured colour => cases h
  | named other =>
      rw [SuitChoice.suitVariable?] at h
      split at h
      · rename_i hvariable
        obtain rfl := Option.some.inj h
        rw [ofChoice, if_pos hvariable]
        rfl
      · cases h

theorem SuitReading.ofChoice_of_none {joker : Joker} {choice : SuitChoice}
    (h : choice.suitVariable? joker = none) :
    ∃ suits, SuitReading.ofChoice joker choice = .fixed suits := by
  cases choice with
  | coloured colour => exact ⟨_, rfl⟩
  | named other =>
      rw [SuitChoice.suitVariable?] at h
      split at h
      · cases h
      · rename_i hvariable
        exact ⟨_, by rw [ofChoice, if_neg hvariable]⟩

/-- Only a variable of the author is read. -/
theorem SuitChoice.mem_vars_of_suitVariable? {joker : Joker} {choice : SuitChoice} {name : String}
    (h : choice.suitVariable? joker = some name) :
    ∃ v ∈ joker.vars, v.kind = .suit ∧ v.name = name := by
  cases choice with
  | coloured colour => cases h
  | named other =>
      rw [suitVariable?, Joker.hasSuitVariable, Joker.findVariable] at h
      cases hfind : joker.vars.find? fun v => v.name == other with
      | none => simp [hfind] at h
      | some v =>
          simp only [hfind, beq_iff_eq, Option.ite_none_right_eq_some, Option.some.injEq] at h
          obtain ⟨hkind, rfl⟩ := h
          exact ⟨v, List.mem_of_find?_eq_some hfind, hkind,
            by simpa using List.find?_some hfind⟩

/-! ### Paths of suit variables -/

theorem pathRoot_suitPath (name : String) : pathRoot (suitPath name) = "G" := by
  have hsplit : suitPath name = "G" ++ "." ++ ("GAME.current_round." ++ name ++ "_card.suit") := by
    unfold suitPath
    rw [← String.toList_inj]
    simp
  rw [hsplit, pathRoot_append, pathRoot_of_dotFree (by decide)]

/-- The path of a suit variable is dotted if the part of the author is. -/
theorem isDotted_suitPath_eq (name : String) :
    isDotted (suitPath name) = isDotted (name ++ "_card") := by
  have hsplit :
      suitPath name = "G.GAME.current_round" ++ "." ++ (name ++ "_card") ++ "." ++ "suit" := by
    unfold suitPath
    rw [← String.toList_inj]
    simp
  have hbegin : isDotted "G.GAME.current_round" = true := by decide
  have hend : isDotted "suit" = true := by decide
  rw [hsplit, isDotted_append, isDotted_append, hbegin, hend, Bool.true_and, Bool.and_true]

/-- **The path of a suit variable is dotted** if its name has the shape of an identifier. It may
even be a reserved word, since it does not stand alone. -/
theorem isDotted_suitPath {name : String} (h : isNameShape name.toList = true) :
    isDotted (suitPath name) = true := by
  rw [isDotted_suitPath_eq]
  have hcard : isIdentifier (name ++ "_card") = true := by
    rw [isIdentifier, Bool.and_eq_true, Bool.not_eq_true', Bool.eq_false_iff, String.toList_append]
    refine ⟨isNameShape_append h (by decide), fun hmem => ?_⟩
    have hkeywords : ∀ k ∈ keywords, '_' ∉ k.toList := by decide
    refine hkeywords _ (List.contains_iff_mem.mp hmem) ?_
    rw [String.toList_append]
    exact List.mem_append_right _ (by decide)
  exact isDotted_of_isIdentifier hcard

/-! ### Tests -/

section Tests

variable {names : List String} {joker : Joker} {choice : SuitChoice}

theorem SuitReading.isScoped_check (hnames : runtimeGlobals ⊆ names) {card : Expr}
    (hcard : card.IsScoped names)
    (hsuit : ∀ name ∈ choice.suitVariable? joker, isDotted (suitPath name) = true) :
    ((SuitReading.ofChoice joker choice).check card).IsScoped names := by
  cases hvariable : choice.suitVariable? joker with
  | some name =>
      have hpath : InScope names (suitPath name) :=
        ⟨hsuit name hvariable, pathRoot_suitPath name ▸ hnames (by decide)⟩
      rw [SuitReading.ofChoice_of_some hvariable]
      simp +decide [check, isSuit, hcard, hpath]
  | none =>
      obtain ⟨suits, hsuits⟩ := SuitReading.ofChoice_of_none hvariable
      rw [hsuits]
      refine Expr.isScoped_joined (Expr.isScoped_bool false) fun test htest => ?_
      obtain ⟨suit, -, rfl⟩ := List.mem_map.mp htest
      simp +decide [isSuit, hcard]

/-- Whoever checks a card against a suit variable uses the path of the variable. -/
theorem SuitReading.suitPath_of_usesAll_check {P : PathUse → Prop} {card : Expr} {name : String}
    (hname : choice.suitVariable? joker = some name)
    (h : ((SuitReading.ofChoice joker choice).check card).UsesAll P) :
    P ⟨suitPath name, false⟩ := by
  rw [SuitReading.ofChoice_of_some hname] at h
  simp only [check, isSuit, Expr.usesAll_method, List.forall_mem_singleton,
    Expr.usesAll_path] at h
  exact h.2

theorem SuitTest.suitPath_of_usesAll_quantified {P : PathUse → Prop} {quantifier : Quantifier}
    {cards name : String} {count : Expr} (hname : choice.suitVariable? joker = some name)
    (h : (SuitTest.quantified quantifier cards (SuitReading.ofChoice joker choice) count).UsesAll
      P) : P ⟨suitPath name, false⟩ := by
  have hcheck : ((SuitReading.ofChoice joker choice).check (.path "c")).UsesAll P := by
    cases quantifier <;>
      simp only [quantified, forEach, Expr.negation, Expr.usesAll_invoked, Expr.usesAll_unary,
        blockUsesAll_cons, Stmt.forall_uses_forItems, Stmt.forall_uses_ifThen] at h
    case atLeastOne | all | exactly | atLeast | atMost => exact h.2.1.2.1.1
  exact SuitReading.suitPath_of_usesAll_check hname hcheck

theorem SuitTest.isScoped_anyRemoved
    (hsuit : ∀ name ∈ choice.suitVariable? joker, isDotted (suitPath name) = true) :
    (SuitTest.anyRemoved (SuitReading.ofChoice joker choice)).IsScoped runtimeGlobals := by
  have hcheck : ((SuitReading.ofChoice joker choice).check (.path "removed_card")).IsScoped
      ("_" :: "removed_card" :: runtimeGlobals) :=
    SuitReading.isScoped_check (by simp) (by simp +decide) hsuit
  simp +decide [anyRemoved, hcheck]

theorem SuitTest.isScoped_quantified
    (hsuit : ∀ name ∈ choice.suitVariable? joker, isDotted (suitPath name) = true)
    (quantifier : Quantifier) {count : Expr} (hcount : count.IsScoped runtimeGlobals)
    {cards : String} (hcards : cards ∈ ["context.scoring_hand", "context.full_hand"]) :
    (SuitTest.quantified quantifier cards (SuitReading.ofChoice joker choice) count).IsScoped
      runtimeGlobals := by
  have hvisible : InScope runtimeGlobals cards := by
    revert cards
    decide
  have hcheck : ∀ flag, ((SuitReading.ofChoice joker choice).check (.path "c")).IsScoped
      ("_" :: "c" :: flag :: runtimeGlobals) := fun flag =>
    SuitReading.isScoped_check
      (List.subset_cons_of_subset _ (List.subset_cons_of_subset _ (List.subset_cons_self _ _)))
      (by simp +decide) hsuit
  have hcount := hcount.mono (List.subset_cons_self "suit_count" runtimeGlobals)
  cases quantifier with
  | atLeastOne => simp +decide [quantified, forEach, hcheck, hvisible]
  | all =>
      simp +decide [quantified, forEach, Expr.negation, Expr.and, Expr.gt, Expr.length, hcheck,
        hvisible]
  | exactly | atLeast | atMost =>
      simp +decide [quantified, forEach, countTest, Expr.and, Expr.gt, Expr.le, Expr.ge,
        Expr.equals, Expr.plus, hcheck, hcount, hvisible]

theorem SuitTest.isScoped_writtenCount (setting : Setting) (rule : RuleId) (s : Storage)
    (t : SuitTest) : (t.writtenCount setting rule s).IsScoped runtimeGlobals := by
  have hslot : ∀ suffix ∈ valueSuffixes,
      isIdentifier (Source.inlineName "count" s ++ suffix) = true := by
    intro suffix hsuffix
    have hbase : "count" ∈ slotBases := by decide
    refine isIdentifier_slot hbase s _ suffix ?_
    revert suffix
    decide
  have hinline : LiteralPolicy.inline ≠ .declared := by decide
  rw [writtenCount]
  split
  · exact isScoped_settled _ _ _ (List.Subset.refl _) (absurd · hinline)
      (hslot "_min" (by decide)) (hslot "_max" (by decide))
  · exact Expr.isScoped_one

end Tests

/-! ### Conditions -/

namespace Condition

variable (setting : Setting) (rule : RuleId) (trigger : Trigger) (s : Storage) (c : Condition)

/-- **The code of a condition is well scoped** if the path of its suit variable is dotted. -/
theorem isScoped_written
    (hsuit : ∀ name ∈ c.test.choice.suitVariable? setting.joker, isDotted (suitPath name) = true) :
    (c.written setting rule trigger s).IsScoped runtimeGlobals := by
  have htest : (c.test.written setting trigger c.subject
      (c.test.writtenCount setting rule s)).IsScoped runtimeGlobals := by
    rw [SuitTest.written]
    cases trigger.singleCard? with
    | some source =>
        cases source with
        | otherCard =>
            exact SuitReading.isScoped_check (List.Subset.refl _) (by simp +decide) hsuit
        | removed => exact SuitTest.isScoped_anyRemoved hsuit
    | none =>
        refine SuitTest.isScoped_quantified hsuit _ (c.test.isScoped_writtenCount setting rule s) ?_
        rw [SuitTest.candidates]
        split <;> decide
  rw [written]
  split
  · exact htest
  · exact htest

/-- If the paths in the code of a condition have a property, that of its suit variable has it. -/
theorem suitPath_of_usesAll_written {P : PathUse → Prop} {name : String}
    (hname : c.test.choice.suitVariable? setting.joker = some name)
    (h : (c.written setting rule trigger s).UsesAll P) : P ⟨suitPath name, false⟩ := by
  have htest : (c.test.written setting trigger c.subject
      (c.test.writtenCount setting rule s)).UsesAll P := by
    rw [written] at h
    split at h
    · exact h
    · exact h
  rw [SuitTest.written] at htest
  split at htest
  · exact SuitReading.suitPath_of_usesAll_check hname htest
  · simp only [SuitTest.anyRemoved, Expr.usesAll_invoked, blockUsesAll_cons,
      Stmt.forall_uses_forItems, Stmt.forall_uses_ifThen] at htest
    exact SuitReading.suitPath_of_usesAll_check hname htest.1.2.1.1
  · exact SuitTest.suitPath_of_usesAll_quantified hname htest

end Condition

/-! ### Rules -/

theorem Lua.Joins.isScoped {names : List String} {es : List Expr} {e : Expr} (h : Joins es e) :
    e.IsScoped names ↔ ∀ part ∈ es, part.IsScoped names := by
  induction h with
  | single e => rw [List.forall_mem_singleton]
  | binary op _ _ ihl ihr => rw [Expr.isScoped_binary, ihl, ihr, List.forall_mem_append]

/-- **The code of all conditions** is well scoped if the code of each of them is. -/
theorem Lua.JoinsTo.isScoped {names : List String} {es : List Expr} {code : Option Expr}
    (h : JoinsTo es code) :
    (∀ e ∈ code, e.IsScoped names) ↔ ∀ part ∈ es, part.IsScoped names := by
  cases h with
  | none => exact iff_of_true nofun nofun
  | some hjoins => simpa using hjoins.isScoped

end JokerScript
