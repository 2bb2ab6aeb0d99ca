import JokerScript.Code.Effect.Basic

/-!
# Modifying the Blind

The chips that the current blind asks for change by an amount, by a factor, or to a
number, and the display follows.

## Main definitions

* `BlindChange.code` — the code of the effect.
-/

namespace JokerScript

namespace BlindChange

open Lua

/-- The chips that the blind asks for. -/
def blindChips : String := "G.GAME.blind.chips"

/-- The new number of chips. -/
def newChips (operation : BlindOperation) (v : Expr) : Expr :=
  let chips : Expr := .path blindChips
  match operation with
  | .add => chips.plus v
  | .subtract => chips.minus v
  | .multiply => chips.times v
  | .divide => chips.dividedBy v
  | .set => v

/-- What stands before the amount in the usual message. -/
def messageLead : BlindOperation → String
  | .add => "+"
  | .subtract => "-"
  | .multiply => "X"
  | .divide => "/"
  | .set => "Set to "

/-- The change, and the new display. -/
def change (operation : BlindOperation) (v : Expr) : Block :=
  [.set blindChips (newChips operation v),
   .set "G.GAME.blind.chip_text" (.apply "number_format" [.path blindChips]),
   .run (.method (.path "G.HUD_blind") "recalculate" [])]

/-- The code of the effect. There is none for a held joker. -/
def code (setting : Setting) (triggerClass : TriggerClass) (effect : Effect)
    (params : BlindChange) : Resolver EffectBody := do
  if triggerClass = .passive then
    throw (effect.missingShape triggerClass)
  else
    let q ← bindQuantity setting "blind_size" valueSuffixes params.value effect.id
    let message := amountMessage (messageLead params.operation) q.value " Blind Size"
    return .triggered triggerClass q.setup (effect.messageOr message) .green
      (change params.operation q.value)

end BlindChange

end JokerScript
