import Mathlib.Data.List.Forall2
import JokerScript.Proofs.Lua.Uses

/-!
# Joined Expressions

The expressions of single conditions are joined by operators, first inside a group and then
group by group. Whatever a tree is asked for that an operator only passes on, the joined
expression answers as its parts do, in their order.

## Main definitions

* `Lua.Joins` — an expression joins others by operators.
* `Lua.JoinsTo` — the same where there may be nothing to join.

## Main results

* `Lua.Joins.joined`, `Lua.JoinsTo.allOf` — operators over lists join.
* `Lua.Joins.usesAll` — the uses of joined expressions.
-/

namespace JokerScript

namespace Lua

/-- The expression **joins** the others by operators, in their order. -/
inductive Joins : List Expr → Expr → Prop
  | single (e : Expr) : Joins [e] e
  | binary (op : BinaryOp) {ls rs : List Expr} {l r : Expr} :
    Joins ls l → Joins rs r → Joins (ls ++ rs) (.binary op l r)

/-- The expression joins the others. There is none if nothing is to be joined. -/
inductive JoinsTo : List Expr → Option Expr → Prop
  | none : JoinsTo [] none
  | some {es : List Expr} {e : Expr} : Joins es e → JoinsTo es (some e)

namespace Joins

variable {ess : List (List Expr)} {es : List Expr} {e : Expr}

theorem foldl (op : BinaryOp) {before : List Expr} (he : Joins before e)
    (h : List.Forall₂ Joins ess es) : Joins (before ++ ess.flatten) (es.foldl (.binary op) e) := by
  induction h generalizing before e with
  | nil => simpa using he
  | cons hhead _ ih =>
      rw [List.flatten_cons, ← List.append_assoc]
      exact ih (he.binary op hhead)

/-- **Operators over lists join.** -/
theorem joined (op : BinaryOp) (unit : Expr) (h : List.Forall₂ Joins ess es) (hes : es ≠ []) :
    Joins ess.flatten (.joined op unit es) := by
  cases h with
  | nil => exact absurd rfl hes
  | cons hhead htail => exact foldl op hhead htail

theorem joined_self (op : BinaryOp) (unit : Expr) (hes : es ≠ []) :
    Joins es (.joined op unit es) := by
  have hsingles : List.Forall₂ Joins (es.map fun e => [e]) es :=
    List.forall₂_map_left_iff.mpr (List.forall₂_same.mpr fun e _ => single e)
  have hjoined := joined op unit hsingles hes
  rwa [← List.flatMap_def, List.flatMap_singleton'] at hjoined

/-- **The uses of joined expressions** are those of the parts. -/
theorem usesAll {P : PathUse → Prop} (h : Joins es e) :
    e.UsesAll P ↔ ∀ part ∈ es, part.UsesAll P := by
  induction h with
  | single e => rw [List.forall_mem_singleton]
  | binary op _ _ ihl ihr => rw [Expr.usesAll_binary, ihl, ihr, List.forall_mem_append]

end Joins

namespace JoinsTo

variable {ess : List (List Expr)} {es : List Expr} {codes : List (Option Expr)} {code : Option Expr}

/-- What there is to be joined is joined by `and`. -/
theorem allOf (h : List.Forall₂ JoinsTo ess codes) :
    JoinsTo ess.flatten (if (codes.filterMap fun code => code).isEmpty then Option.none
      else Option.some (.allOf (codes.filterMap fun code => code))) := by
  obtain ⟨parts, hflatten, hparts⟩ : ∃ parts, ess.flatten = parts.flatten ∧
      List.Forall₂ Joins parts (codes.filterMap fun code => code) := by
    induction h with
    | nil => exact ⟨[], rfl, .nil⟩
    | @cons es code ess codes hhead _ ih =>
        obtain ⟨parts, hflatten, hparts⟩ := ih
        cases hhead with
        | none => exact ⟨parts, hflatten, hparts⟩
        | some hjoins => exact ⟨es :: parts, by simp [hflatten], .cons hjoins hparts⟩
  rw [hflatten]
  split
  · rename_i hempty
    rw [List.isEmpty_iff.mp hempty, List.forall₂_nil_right_iff] at hparts
    rw [hparts]
    exact .none
  · rename_i hne
    exact .some (Joins.joined .and _ hparts (by simpa using hne))

theorem usesAll {P : PathUse → Prop} (h : JoinsTo es code) :
    (∀ e ∈ code, e.UsesAll P) ↔ ∀ part ∈ es, part.UsesAll P := by
  cases h with
  | none => exact iff_of_true nofun nofun
  | some hjoins => simpa using hjoins.usesAll

end JoinsTo

end Lua

end JokerScript
