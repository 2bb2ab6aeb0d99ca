import JokerScript.Tag

/-!
# Triggers

A rule fires at one activation point of the game. The activation points fall into three
classes, which decide the shape of the generated code.

## Main definitions

* `Trigger` — the activation points.
* `TriggerClass`, `Trigger.triggerClass` — the three classes.
* `Trigger.singleCard?` — the single card that an activation point is about.
-/

namespace JokerScript

/-- When a rule fires. -/
inductive Trigger
  | handPlayed
  | cardScored
  | cardHeldInHand
  | cardHeldInHandEndOfRound
  | cardDiscarded
  | cardDestroyed
  | handDiscarded
  | blindSelected
  | roundEnd
  | passive
deriving DecidableEq, Repr

instance : Tagged Trigger where
  all := [.handPlayed, .cardScored, .cardHeldInHand, .cardHeldInHandEndOfRound,
    .cardDiscarded, .cardDestroyed, .handDiscarded, .blindSelected, .roundEnd, .passive]
  tag
    | .handPlayed => "hand_played"
    | .cardScored => "card_scored"
    | .cardHeldInHand => "card_held_in_hand"
    | .cardHeldInHandEndOfRound => "card_held_in_hand_end_of_round"
    | .cardDiscarded => "card_discarded"
    | .cardDestroyed => "card_destroyed"
    | .handDiscarded => "hand_discarded"
    | .blindSelected => "blind_selected"
    | .roundEnd => "round_end"
    | .passive => "passive"
  find_tag := by intro a; cases a <;> rfl

/-- The shape of the code that a trigger asks for. -/
inductive TriggerClass
  /-- Inside the scoring of a hand; changes wait for the return table. -/
  | scoring
  /-- Outside scoring; changes run in the body of the callback. -/
  | immediate
  /-- No activation point; a change is applied on gain and reverted on loss. -/
  | passive
deriving DecidableEq, Repr

instance : Tagged TriggerClass where
  all := [.scoring, .immediate, .passive]
  tag
    | .scoring => "scoring"
    | .immediate => "immediate"
    | .passive => "passive"
  find_tag := by intro a; cases a <;> rfl

/-- Where the single card of a trigger is found. -/
inductive CardSource
  /-- The card `context.other_card`. -/
  | otherCard
  /-- Each of the cards `context.removed`. -/
  | removed
deriving DecidableEq, Repr

namespace Trigger

/-- The class of a trigger. -/
def triggerClass : Trigger → TriggerClass
  | handPlayed | cardScored => .scoring
  | passive => .passive
  | _ => .immediate

/-- The single card that the game hands to a trigger, if it does. -/
def singleCard? : Trigger → Option CardSource
  | cardScored | cardHeldInHand | cardHeldInHandEndOfRound | cardDiscarded => some .otherCard
  | cardDestroyed => some .removed
  | _ => none

/-- Is the trigger about several cards of which none is scored? -/
def isDiscard : Trigger → Bool
  | handDiscarded => true
  | _ => false

end Trigger

end JokerScript
