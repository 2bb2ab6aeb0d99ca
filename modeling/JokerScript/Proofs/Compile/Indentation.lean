import Mathlib.Data.List.Forall2
import Mathlib.Data.Option.Basic
import JokerScript.Proofs.Lua.Lines
import JokerScript.Rendered.Basic

/-!
# Two Indentations

A mod that is compiled under two configurations which differ in the indentation alone fails in
both with one error, or gives two outputs that say the same. Every key, name, variable, report
and owner is the same, the same texts are there, and a text of the one has the lines of that text
of the other, but for the blanks that lines begin with.

## Main definitions

* `ModText.Realigned` — two outputs that differ in the indentation of their texts alone, and the
  same for their parts.

## Main results

* `renderMod_realigned` — a mod, an expression and a block under two indentations.
-/

namespace JokerScript

open Lua

/-! ### Texts that differ in indentation -/

/-- The texts of two effects differ in the indentation of their lines alone. -/
inductive BlocksText.Realigned : BlocksText → BlocksText → Prop
  | callback {f g : String} (h : SameLines f g) : Realigned (.callback f) (.callback g)
  | beforeReturn {s t : String} (h : SameLines s t) : Realigned (.beforeReturn s) (.beforeReturn t)
  | whileHeld {gain loss gain' loss' : String} (hgain : SameLines gain gain')
      (hloss : SameLines loss loss') : Realigned (.whileHeld gain loss) (.whileHeld gain' loss')

/-- The outputs for an effect differ in the indentation of their texts alone. -/
structure EffectText.Realigned (a b : EffectText) : Prop where
  effectId : a.effectId = b.effectId
  kind : a.kind = b.kind
  blocks : a.blocks.Realigned b.blocks
  message : Option.Rel SameLines a.message b.message
  colour : a.colour = b.colour

/-- The outputs for a rule differ in the indentation of their texts alone. -/
structure RuleText.Realigned (a b : RuleText) : Prop where
  ruleId : a.ruleId = b.ruleId
  trigger : a.trigger = b.trigger
  condition : Option.Rel SameLines a.condition b.condition
  effects : List.Forall₂ EffectText.Realigned a.effects b.effects

/-- The outputs for a joker differ in the indentation of their texts alone. -/
structure JokerText.Realigned (a b : JokerText) : Prop where
  key : a.key = b.key
  vars : a.vars = b.vars
  rules : List.Forall₂ RuleText.Realigned a.rules b.rules
  failures : a.failures = b.failures

/-- The texts of a replaced function differ in their indentation alone. -/
structure PatchText.Realigned (a b : PatchText) : Prop where
  category : a.category = b.category
  target : a.target = b.target
  owners : a.owners = b.owners
  source : SameLines a.source b.source

/-- The outputs for a mod differ in the indentation of their texts alone. -/
structure ModText.Realigned (a b : ModText) : Prop where
  jokers : List.Forall₂ JokerText.Realigned a.jokers b.jokers
  hooks : List.Forall₂ PatchText.Realigned a.hooks b.hooks

/-! ### Code at two widths -/

section Widths

variable (w w' : ℕ)

/-- **An expression has the same lines at every width.** -/
theorem Lua.Expr.sameLines_render (e : Expr) : SameLines (e.render w) (e.render w') :=
  (e.layout 0).sameLines_toText w w'

/-- **A block has the same lines at every width.** -/
theorem Lua.Block.sameLines_render (block : Block) :
    SameLines (Block.render w block) (Block.render w' block) :=
  (Block.layout block).sameLines_toText w w'

/-- The outputs for each item of a list are related if those for one item are. -/
theorem forall₂_map_same {α β : Type} {r : β → β → Prop} {f g : α → β} (h : ∀ a, r (f a) (g a))
    (as : List α) : List.Forall₂ r (as.map f) (as.map g) := by
  rw [List.forall₂_map_left_iff, List.forall₂_map_right_iff, List.forall₂_same]
  exact fun a _ => h a

/-- An optional expression is there at both widths, with the same lines, or at neither. -/
theorem rel_render (e : Option Expr) :
    Option.Rel SameLines (e.map (Expr.render w)) (e.map (Expr.render w')) := by
  cases e with
  | none => exact .none
  | some e => exact .some (e.sameLines_render w w')

theorem EffectBlocks.realigned_render (blocks : EffectBlocks) :
    (blocks.render w).Realigned (blocks.render w') := by
  cases blocks with
  | callback body => exact .callback (Expr.sameLines_render w w' _)
  | beforeReturn body => exact .beforeReturn (Block.sameLines_render w w' body)
  | whileHeld gain loss =>
      exact .whileHeld (Block.sameLines_render w w' gain) (Block.sameLines_render w w' loss)

theorem EffectCode.realigned_render (effect : EffectCode) :
    (effect.render w).Realigned (effect.render w') where
  effectId := rfl
  kind := rfl
  blocks := effect.body.blocks.realigned_render w w'
  message := rel_render w w' effect.body.message
  colour := rfl

theorem RuleCode.realigned_render (code : RuleCode) :
    (code.render w).Realigned (code.render w') where
  ruleId := rfl
  trigger := rfl
  condition := rel_render w w' code.condition
  effects := forall₂_map_same (EffectCode.realigned_render w w') code.effects

theorem JokerCode.realigned_render (code : JokerCode) :
    (code.render w).Realigned (code.render w') where
  key := rfl
  vars := rfl
  rules := forall₂_map_same (RuleCode.realigned_render w w') code.rules
  failures := rfl

theorem Patch.realigned_render (patch : Patch) :
    (patch.render w).Realigned (patch.render w') where
  category := rfl
  target := rfl
  owners := rfl
  source := Block.sameLines_render w w' patch.body

theorem ModCode.realigned_render (code : ModCode) :
    (code.render w).Realigned (code.render w') where
  jokers := forall₂_map_same (JokerCode.realigned_render w w') code.jokers
  hooks := forall₂_map_same (Patch.realigned_render w w') code.hooks

end Widths

/-- **Indentation is layout and nothing else.** Two configurations that differ in the indentation
alone give one error, or outputs that differ in the blanks at the beginning of lines alone; so do
the texts of any expression and of any block. -/
theorem renderMod_realigned (config : Config) (w : ℕ) (jokers : List Joker) :
    ((∃ e, renderMod config jokers = .error e ∧
        renderMod { config with indentWidth := w } jokers = .error e) ∨
      ∃ a b, renderMod config jokers = .ok a ∧
        renderMod { config with indentWidth := w } jokers = .ok b ∧ a.Realigned b) ∧
    (∀ e : Expr, SameLines (e.render config.indentWidth) (e.render w)) ∧
    ∀ block : Block, SameLines (Block.render config.indentWidth block) (Block.render w block) := by
  refine ⟨?_, Expr.sameLines_render _ w, Block.sameLines_render _ w⟩
  -- The code is made from the naming alone, before the width comes in.
  rw [renderMod, renderMod]
  cases compile config.toNaming jokers with
  | error e => exact .inl ⟨e, rfl, rfl⟩
  | ok code => exact .inr ⟨_, _, rfl, rfl, code.realigned_render _ w⟩

end JokerScript
