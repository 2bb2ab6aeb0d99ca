import JokerScript.Code.Effect
import JokerScript.Hook.Ledger

/-!
# The Code of Rules

A rule is compiled as a whole or not at all. The hook requests of its effects are checked
while it is compiled, so that they can be added without failure afterwards.

## Main definitions

* `RuleCode`, `RuleCode.hooks` — the code of a rule, and the hook requests it makes.
* `Rule.compile` — from a rule to its code.
-/

namespace JokerScript

open Lua

/-- The code of a rule. -/
structure RuleCode where
  id : RuleId
  trigger : Trigger
  /-- The expression of its conditions; without it the rule always applies. -/
  condition : Option Expr
  effects : List EffectCode

/-- Computations that may give up a rule. -/
abbrev RuleCompiler := ExceptT RuleError (StateM Storage)

namespace RuleCompiler

/-- A computation whose failure is blamed on a place. -/
def blaming {α : Type} (place : Option EffectId) (x : Resolver α) : RuleCompiler α :=
  ExceptT.adapt (fun e => (place, e)) x

/-- A check whose failure is blamed on a place. -/
def require (place : Option EffectId) (x : Except CompileError Unit) : RuleCompiler Unit :=
  match x with
  | .ok () => return ()
  | .error e => throw (place, e)

end RuleCompiler

/-- Compile an effect, and check the hook request that it makes. -/
def Effect.compileIn (setting : Setting) (ledger : HookLedger) (trigger : Trigger)
    (effect : Effect) : RuleCompiler EffectCode := do
  let compiled ← RuleCompiler.blaming (some effect.id) (effect.compile setting trigger)
  match compiled.body.hook with
  | none => return compiled
  | some request =>
    RuleCompiler.require (some effect.id) (ledger.check request)
    return compiled

/-- Compile a rule. -/
def Rule.compile (setting : Setting) (ledger : HookLedger) (rule : Rule) :
    RuleCompiler RuleCode := do
  let condition ← RuleCompiler.blaming none (rule.conditionCode? setting)
  let effects ← rule.effects.mapM (Effect.compileIn setting ledger rule.trigger)
  return { id := rule.id, trigger := rule.trigger, condition, effects }

/-- The hook requests of a rule, in the order of its effects. -/
def RuleCode.hooks (code : RuleCode) : List HookRequest :=
  code.effects.filterMap fun effect => effect.body.hook

end JokerScript
