import JokerScript.Code.Effect.Basic
import JokerScript.Joker.Consumable

/-!
# Destroying Consumables

The held consumables that are asked for are collected, and one of them, drawn at random,
is dissolved. The message is shown at once, inside scoring and outside, and only if
something is destroyed.

## Main definitions

* `ConsumableRemoval.code` — the code of the effect.
-/

namespace JokerScript

namespace ConsumableRemoval

open Lua

/-- The local variable with the collected consumables. -/
def targets : String := "target_cards"

/-- The local variable with the consumable to destroy. -/
def chosen : String := "card_to_destroy"

/-- What is asked of a consumable, if anything is. -/
def filter? : ConsumableChoice → Option Expr
  | .any => none
  | .ofSet set card =>
    let ofSet := (Expr.path "consumable.ability.set").equals (.str set.name)
    match card with
    | none => some ofSet
    | some name =>
      some (ofSet.and ((Expr.path "consumable.config.center.key").equals (.str (set.key name))))

/-- Collect a consumable that is asked for. -/
def collect (target : ConsumableChoice) : Block :=
  let insert : Stmt := .call "table.insert" [.path targets, .path "consumable"]
  match filter? target with
  | none => [insert]
  | some condition => [.ifThen condition [insert]]

/-- Draw one of the collected consumables, dissolve it, and say so. -/
def destroy (seed : String) (message : Expr) : Block :=
  [.letLocal chosen
    (.apply "pseudorandom_element" [.path targets, .apply "pseudoseed" [.str seed]]),
   scheduled [.run (.method (.path chosen) "start_dissolve" []), .returning (.bool true)],
   statusText message .red]

/-- The block of the effect. -/
def block (naming : Naming) (effect : Effect) (params : ConsumableRemoval) : Block :=
  let seed := naming.seed "destroy_consumable" effect.id.text
  let message := effect.messageOr (.str "Destroyed Consumable!")
  [.letLocal targets (.table []),
   .forItems "_" "consumable" (.path "G.consumeables.cards") (collect params.target),
   .ifThen ((Expr.path targets).length.gt .zero) (destroy seed message)]

/-- The code of the effect. There is none for a held joker. -/
def code (setting : Setting) (triggerClass : TriggerClass) (effect : Effect)
    (params : ConsumableRemoval) : Resolver EffectBody := do
  let block := params.block setting.naming effect
  match triggerClass with
  | .scoring => return { blocks := .beforeReturn block, colour := some .red }
  | .immediate => return { blocks := .callback block, colour := some .red }
  | .passive => throw (effect.missingShape .passive)

end ConsumableRemoval

end JokerScript
