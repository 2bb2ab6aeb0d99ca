import JokerScript.Lua.Render
import JokerScript.Code.Mod

/-!
# Rendered Code

Compiled code leaves the compiler as texts, which are then put together with the rest of
a mod.

## Main definitions

* `BlocksText`, `EffectText`, `RuleText`, `JokerText`, `PatchText`,
  `ModText` — the texts.
* `ModCode.render` — from trees to texts.
-/

namespace JokerScript

open Lua

/-- The texts of the blocks of an effect. -/
inductive BlocksText
  /-- The callback of the return table. -/
  | callback (func : String)
  /-- The statements before the return table. -/
  | beforeReturn (text : String)
  /-- What is done when the joker is gained, and what when it is lost. -/
  | whileHeld (gain loss : String)
deriving DecidableEq, Repr

namespace BlocksText

/-- The texts in order. -/
def toList : BlocksText → List String
  | callback func => [func]
  | beforeReturn text => [text]
  | whileHeld gain loss => [gain, loss]

end BlocksText

/-- The texts of an effect. -/
structure EffectText where
  effectId : EffectId
  kind : String
  blocks : BlocksText
  /-- The message of the return table. -/
  message : Option String
  /-- The colour of the return table. -/
  colour : Option String
deriving DecidableEq, Repr

/-- The texts of a rule. -/
structure RuleText where
  ruleId : RuleId
  trigger : Trigger
  condition : Option String
  effects : List EffectText
deriving DecidableEq, Repr

/-- The output for a joker. -/
structure JokerText where
  key : JokerKey
  vars : List StoredVariable
  rules : List RuleText
  failures : List RuleFailure
deriving DecidableEq, Repr

/-- The text of a replaced function. -/
structure PatchText where
  category : HookCategory
  target : String
  owners : List JokerKey
  source : String
deriving DecidableEq, Repr

/-- The output for a mod. -/
structure ModText where
  jokers : List JokerText
  hooks : List PatchText
deriving DecidableEq, Repr

/-! ### Rendering -/

/-- The callback of a body: a function that runs it and returns true. -/
def callbackFunction (body : Block) : Expr := .thunk (body ++ [.returning (.bool true)])

/-- The texts of the blocks of an effect. -/
def EffectBlocks.render (width : Nat) : EffectBlocks → BlocksText
  | callback body => .callback ((callbackFunction body).render width)
  | beforeReturn body => .beforeReturn (Block.render width body)
  | whileHeld gain loss => .whileHeld (Block.render width gain) (Block.render width loss)

/-- The texts of an effect. -/
def EffectCode.render (width : Nat) (effect : EffectCode) : EffectText :=
  { effectId := effect.id
    kind := effect.kind
    blocks := effect.body.blocks.render width
    message := effect.body.message.map (Expr.render width)
    colour := effect.body.colour.map Colour.path }

/-- The texts of a rule. -/
def RuleCode.render (width : Nat) (code : RuleCode) : RuleText :=
  { ruleId := code.id
    trigger := code.trigger
    condition := code.condition.map (Expr.render width)
    effects := code.effects.map (EffectCode.render width) }

/-- The texts of a joker. -/
def JokerCode.render (width : Nat) (code : JokerCode) : JokerText :=
  { key := code.key
    vars := code.vars
    rules := code.rules.map (RuleCode.render width)
    failures := code.failures }

/-- The text of a replaced function. -/
def Patch.render (width : Nat) (patch : Patch) : PatchText :=
  { category := patch.category
    target := patch.target
    owners := patch.owners
    source := Block.render width patch.body }

/-- The texts of all jokers of a mod. -/
def ModCode.render (width : Nat) (c : ModCode) : ModText :=
  { jokers := c.jokers.map (JokerCode.render width)
    hooks := c.hooks.map (Patch.render width) }

/-! ### From jokers to texts -/

/-- Compile the jokers of a mod to texts. -/
def renderMod (config : Config) (jokers : List Joker) : Except CompileError ModText :=
  (compile config.toNaming jokers).map (ModCode.render config.indentWidth)

/-- Validate and compile the drafts of a mod to texts. -/
def renderDrafts (config : Config) (drafts : List DraftJoker) : Except CompileError ModText :=
  (compileDrafts config.toNaming drafts).map (ModCode.render config.indentWidth)

/-! ### Looking things up -/

namespace ModText

/-- The output of the first joker with a key. -/
def joker? (output : ModText) (key : String) : Option JokerText :=
  output.jokers.find? fun joker => joker.key.text == key

/-- The replacement of a function. -/
def hook? (output : ModText) (target : String) : Option PatchText :=
  output.hooks.find? fun patch => patch.target == target

/-- The rules that were given up, joker by joker. -/
def failures (output : ModText) : List RuleFailure := output.jokers.flatMap (·.failures)

end ModText

namespace JokerText

/-- The texts of the first rule with an id. -/
def rule? (joker : JokerText) (id : String) : Option RuleText :=
  joker.rules.find? fun rule => rule.ruleId.text == id

/-- The value of a variable. -/
def value? (joker : JokerText) (name : String) : Option Number :=
  (joker.vars.find? fun v => v.name == name).map (·.value)

end JokerText

end JokerScript
