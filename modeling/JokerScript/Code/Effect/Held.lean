import JokerScript.Code.Effect.Basic

/-!
# Effects of Held Jokers

Discounts and combined suits live in functions of the game; the code of the effect only
asks for the change. Free rerolls are given when the joker comes and taken back when it
goes.

## Main definitions

* `Discount.code`, `RerollGrant.code`, `SuitPair.code` — the codes.
-/

namespace JokerScript

open Lua

/-- These effects have code for held jokers only. -/
def Effect.requirePassive (effect : Effect) (triggerClass : TriggerClass) : Resolver Unit :=
  if triggerClass = .passive then return () else throw (effect.missingShape triggerClass)

/-- Compute the cost of every card anew, in the next frame, so that prices follow as soon
as the joker comes or goes. -/
def refreshCosts : Block :=
  [scheduled
    [.forEntries "_" "v" (.path "G.I.CARD")
      [.ifThen (.path "v.set_cost") [.run (.method (.path "v") "set_cost" [])]],
     .returning (.bool true)]]

namespace Discount

/-- The code of the effect. -/
def code (setting : Setting) (triggerClass : TriggerClass) (effect : Effect)
    (params : Discount) : Resolver EffectBody := do
  effect.requirePassive triggerClass
  return { blocks := .whileHeld refreshCosts refreshCosts,
           hook := some (.ofChange setting.joker.key (.discount params)) }

end Discount

namespace RerollGrant

/-- Change the number of free rerolls. -/
def change (amount : Number) : Block := [.call "SMODS.change_free_rerolls" [.number amount]]

/-- The code of the effect. -/
def code (triggerClass : TriggerClass) (effect : Effect) (params : RerollGrant) :
    Resolver EffectBody := do
  effect.requirePassive triggerClass
  return { blocks := .whileHeld (change params.amount) (change params.amount.opposite) }

end RerollGrant

namespace SuitPair

/-- The code of the effect. -/
def code (setting : Setting) (triggerClass : TriggerClass) (effect : Effect)
    (params : SuitPair) : Resolver EffectBody := do
  effect.requirePassive triggerClass
  return { blocks := .whileHeld [] [],
           hook := some (.ofChange setting.joker.key (.suitPair params)) }

end SuitPair

end JokerScript
