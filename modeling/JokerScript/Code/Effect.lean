import JokerScript.Code.Effect.BlindChange
import JokerScript.Code.Effect.ConsumableRemoval
import JokerScript.Code.Effect.HandChange
import JokerScript.Code.Effect.Held
import JokerScript.Code.Effect.JokerCreation

/-!
# The Code of Effects by Kind

## Main definitions

* `EffectCode` — the code of an effect, with the variables that it declared.
* `Effect.compile` — from an effect of a rule to its code.
-/

namespace JokerScript

/-- The code of an effect of a rule. -/
structure EffectCode where
  id : EffectId
  /-- The tag of its kind. -/
  kind : String
  body : EffectBody
  /-- The variables that it declared, in order. -/
  vars : List StoredVariable

/-- The code of an effect by its kind. -/
def EffectKind.code (setting : Setting) (triggerClass : TriggerClass) (effect : Effect) :
    EffectKind → Resolver EffectBody
  | .createJoker params => params.code setting triggerClass effect
  | .destroyConsumable params => params.code setting triggerClass effect
  | .editHand params => params.code setting triggerClass effect
  | .modifyBlind params => params.code setting triggerClass effect
  | .discountItems params => params.code setting triggerClass effect
  | .freeRerolls params => params.code triggerClass effect
  | .combineSuits params => params.code setting triggerClass effect

/-- Compile an effect of a rule that fires at a trigger. -/
def Effect.compile (setting : Setting) (trigger : Trigger) (effect : Effect) :
    Resolver EffectCode := do
  let mark := (← get).declared.length
  let body ← effect.kind.code setting trigger.triggerClass effect
  let vars := (← get).declaredSince mark
  return { id := effect.id, kind := effect.kind.tag, body, vars }

end JokerScript
