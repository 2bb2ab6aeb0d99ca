import JokerScript.Code.Effect.Basic

/-!
# Editing the Number of Hands

At a trigger the number of hands changes by an amount or to it, for every round or for
this one. While a joker is held, the change is undone when the joker goes: what was
added or taken is recorded and reverted exactly, and a number that was set is replaced
by the one seen before.

## Main definitions

* `HandChange.code` — the code of the effect.
-/

namespace JokerScript

namespace HandChange

open Lua

/-- The hands of a round. -/
def roundHands : String := "G.GAME.round_resets.hands"

/-- The hands left in this round. -/
def handsLeft : String := "G.GAME.current_round.hands_left"

/-- The change for every round. The hands left follow. -/
def permanentChange (operation : HandOperation) (v : Expr) : Block :=
  let hands : Expr := .path roundHands
  let (total, eased) :=
    match operation with
    | .add => (hands.plus v, v)
    | .subtract => (hands.minus v, v.opposite)
    | .set => (v, v.minus (.path handsLeft))
  [.set roundHands total, .call "ease_hands_played" [eased]]

/-- The change for this round. -/
def roundChange (operation : HandOperation) (v : Expr) : Block :=
  let left : Expr := .path handsLeft
  match operation with
  | .add => [.set handsLeft (left.plus v)]
  | .subtract => [.set handsLeft (left.minus v)]
  | .set => [.set handsLeft v]

/-- The change at a trigger. -/
def change (duration : Duration) (operation : HandOperation) (v : Expr) : Block :=
  match duration with
  | .permanent => permanentChange operation v
  | .round => roundChange operation v

/-- The usual message. -/
def message (operation : HandOperation) (v : Expr) : Expr :=
  match operation with
  | .add => amountMessage "+" v " Hand"
  | .subtract => amountMessage "-" v " Hand"
  | .set => amountMessage "Set to " v " Hands"

/-- The colour of the message. -/
def colour : HandOperation → Colour
  | .add => .green
  | .subtract => .red
  | .set => .blue

/-- What a claim for a held joker reserves: the bounds of a range, the change that was
applied, and the number seen before. -/
def passiveSuffixes : List String := ["", "_min", "_max", "_applied", "_original"]

/-- The variable that records the change that was applied. -/
def appliedName (slot : String) : String := slot ++ "_applied"

/-- The variable that records the number seen before. It is not declared: without a
record it holds nothing. -/
def snapshotName (slot : String) : String := slot ++ "_original"

/-- The blocks of a change that the joker adds while it is held. -/
def heldAdd (q : BoundQuantity) : EffectBlocks :=
  let hands : Expr := .path roundHands
  let applied : Expr := .extra (appliedName q.slot)
  .whileHeld
    (q.setup ++ [.assign applied q.value, .set roundHands (hands.plus applied)])
    [.set roundHands (hands.minus (applied.or .zero)), .assign applied .zero]

/-- The blocks of a change that the joker takes away while it is held. One hand always
remains, and the record tells how many were taken. -/
def heldSubtract (q : BoundQuantity) : EffectBlocks :=
  let hands : Expr := .path roundHands
  let applied : Expr := .extra (appliedName q.slot)
  .whileHeld
    (q.setup ++
      [.letLocal "hands_before" hands,
       .set roundHands (.apply "math.max" [.one, hands.minus q.value]),
       .assign applied ((Expr.path "hands_before").minus hands)])
    [.set roundHands (hands.plus (applied.or .zero)), .assign applied .zero]

/-- The blocks of a number that the joker sets while it is held. -/
def heldSet (q : BoundQuantity) : EffectBlocks :=
  let hands : Expr := .path roundHands
  let snapshot : Expr := .extra (snapshotName q.slot)
  .whileHeld
    (q.setup ++ [.assign snapshot hands, .set roundHands q.value])
    [.ifThen snapshot [.set roundHands snapshot, .assign snapshot .nil]]

/-- The code for a held joker. The duration does not matter. -/
def passiveCode (setting : Setting) (effect : Effect) (params : HandChange) :
    Resolver EffectBody := do
  let q ← bindQuantity setting "hand_change" passiveSuffixes params.value effect.id
  match params.operation with
  | .add =>
    Resolver.declare ⟨appliedName q.slot, Number.zero false⟩
    return { blocks := heldAdd q }
  | .subtract =>
    Resolver.declare ⟨appliedName q.slot, Number.zero false⟩
    return { blocks := heldSubtract q }
  | .set => return { blocks := heldSet q }

/-- The code of the effect. -/
def code (setting : Setting) (triggerClass : TriggerClass) (effect : Effect)
    (params : HandChange) : Resolver EffectBody := do
  if triggerClass = .passive then
    passiveCode setting effect params
  else
    let q ← bindQuantity setting "hands" valueSuffixes params.value effect.id
    return .triggered triggerClass q.setup
      (effect.messageOr (message params.operation q.value)) (colour params.operation)
      (change params.duration params.operation q.value)

end HandChange

end JokerScript
