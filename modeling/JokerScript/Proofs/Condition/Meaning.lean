import JokerScript.Code.Condition
import JokerScript.Proofs.Resolve.Worth

/-!
# What Conditions Mean

The meaning of an authored condition is a proposition about a **scene**: the cards in play,
the answers of the game about their suits, and the numbers that a quantity may stand for.
It is stated without the generated code.

A trigger about a single card asks about that card alone, whatever quantifier and scope say.
Otherwise the quantifier compares how many cards match with how many there are and with the
authored count.

## Main definitions

* `Scene`, `Scene.PlayedBy`, `Scene.ShownIn` — scenes, and where generated code finds them.
* `SuitChoice.matches`, `Quantifier.Holds`, `SuitTest.Holds` — what a test asks for.
* `Condition.Holds`, `ConditionGroup.Holds`, `Rule.Holds` — what a rule asks for.
-/

namespace JokerScript

open Lua

/-! ### Scenes -/

/-- A **scene**: what conditions are about. Cards are known by the addresses of their
tables. -/
structure Scene where
  scoringHand : List ℕ
  fullHand : List ℕ
  removed : List ℕ
  otherCard : ℕ
  /-- The answer of the game whether a card has a suit; `none` is the answer `nil`. -/
  isSuit : ℕ → Value → Option Bool
  /-- The suit that the game keeps for a suit variable. -/
  suitOf : String → Value
  readings : Readings

/-- Does the path lead to a list of these cards? -/
def ShowsCards {W : Type} (s : State W) (path : String) (cards : List ℕ) : Prop :=
  ∃ a, s.read path = some (.table a) ∧ (s.tables a).items = cards.map .table

namespace Scene

/-- Does the game say that the card has the suit? -/
def hasSuit (scene : Scene) (card : ℕ) (suit : Value) : Bool := scene.isSuit card suit == some true

/-- The state **shows** the scene where the code of the joker looks; the variables declared
in `final` but not in `start` still hold the numbers that they start from. -/
structure ShownIn {W : Type} (scene : Scene) (joker : Joker) (start final : Storage)
    (s : State W) : Prop where
  readings : scene.readings.ShownIn start final s
  scoringHand : ShowsCards s "context.scoring_hand" scene.scoringHand
  fullHand : ShowsCards s "context.full_hand" scene.fullHand
  removed : ShowsCards s "context.removed" scene.removed
  otherCard : s.read "context.other_card" = some (.table scene.otherCard)
  suitOf : ∀ name, joker.hasSuitVariable name = true →
    s.read ("G.GAME.current_round." ++ name ++ "_card.suit") = some (scene.suitOf name)
  /-- No local variable hides the function that goes through lists. -/
  visible : s.locals.lookup "ipairs" = none

end Scene

/-! ### Tests of suits -/

/-- Does the card have one of the chosen suits? A suit variable of the joker wins over the
suit of that name, and an unknown name matches nothing. -/
def SuitChoice.matches (scene : Scene) (joker : Joker) (card : ℕ) : SuitChoice → Bool
  | coloured colour => colour.suits.any fun suit => scene.hasSuit card (.str suit.name)
  | named name =>
    if joker.hasSuitVariable name then
      scene.hasSuit card (scene.suitOf name)
    else
      match Suit.ofName? name with
      | some suit => scene.hasSuit card (.str suit.name)
      | none => false

/-- What a quantifier asks of the number of matching cards among all of them. -/
def Quantifier.Holds (matching total : ℕ) (count : ExactNumber) : Quantifier → Prop
  | atLeastOne => 0 < matching
  | all => matching = total ∧ 0 < total
  | exactly => ExactNumber.finite matching = count
  | atLeast => count.le (.finite matching) = true
  | atMost => (ExactNumber.finite matching).le count = true ∧ 0 < matching

namespace SuitTest

/-- The cards that a test is about, when the trigger is not about a single card. Discarded
cards are never scored. -/
def cards (scene : Scene) (trigger : Trigger) (subject : CardSubject) (scope : HandScope) :
    List ℕ :=
  match subject, scope, trigger with
  | .played, .scoring, .handDiscarded => scene.fullHand
  | .played, .scoring, _ => scene.scoringHand
  | .played, .all, _ | .discarded, _, _ => scene.fullHand

/-- The quantity of the count; one if there is none. -/
def countSource (t : SuitTest) : Source := Source.ofQuantity (t.count.getD (.number Number.one))

/-- What a test asks for, when `s` is the storage of the joker. -/
def Holds (scene : Scene) (setting : Setting) (rule : Rule) (subject : CardSubject) (s : Storage)
    (t : SuitTest) : Prop :=
  let isMatch := fun card => t.choice.matches scene setting.joker card
  match rule.trigger with
  | .cardScored | .cardHeldInHand | .cardHeldInHandEndOfRound | .cardDiscarded =>
    isMatch scene.otherCard = true
  | .cardDestroyed => ∃ card ∈ scene.removed, isMatch card = true
  | .handPlayed | .handDiscarded | .blindSelected | .roundEnd | .passive =>
    let cards := cards scene rule.trigger subject t.scope
    t.quantifier.Holds (cards.countP isMatch) cards.length
      (t.countSource.worth scene.readings setting.naming "count" rule.id.text s)

/-- The storage after the code of a test is made: only a count can need variables. -/
def storageAfter (trigger : Trigger) (s : Storage) (t : SuitTest) : Storage :=
  if trigger.singleCard? = none ∧ t.quantifier.isCounting = true then
    t.countSource.storageAfter "count" s
  else
    s

end SuitTest

/-! ### Conditions, groups and rules -/

namespace Condition

/-- What a condition asks for, when `s` is the storage of the joker. -/
def Holds (scene : Scene) (setting : Setting) (rule : Rule) (s : Storage) (c : Condition) : Prop :=
  if c.negate then
    ¬c.test.Holds scene setting rule c.subject s
  else
    c.test.Holds scene setting rule c.subject s

/-- The storage after the code of a condition is made. -/
def storageAfter (trigger : Trigger) (s : Storage) (c : Condition) : Storage :=
  c.test.storageAfter trigger s

end Condition

namespace ConditionGroup

/-- What a group asks for: all of its conditions, or one of them. -/
def Holds (scene : Scene) (setting : Setting) (rule : Rule) (s : Storage) (g : ConditionGroup) :
    Prop :=
  let stages := stages (Condition.storageAfter rule.trigger) s g.conditions
  match g.connective with
  | .and => ∀ p ∈ stages, p.2.Holds scene setting rule p.1
  | .or => ∃ p ∈ stages, p.2.Holds scene setting rule p.1

/-- The storage after the code of a group is made. -/
def storageAfter (trigger : Trigger) (s : Storage) (g : ConditionGroup) : Storage :=
  g.conditions.foldl (Condition.storageAfter trigger) s

end ConditionGroup

namespace Rule

/-- What the conditions of a rule ask for: every group that is not empty. -/
def Holds (scene : Scene) (setting : Setting) (rule : Rule) (s : Storage) : Prop :=
  ∀ p ∈ stages (ConditionGroup.storageAfter rule.trigger) s rule.groups,
    p.2.conditions ≠ [] → p.2.Holds scene setting rule p.1

/-- The storage after the code of the conditions is made. -/
def storageAfter (s : Storage) (rule : Rule) : Storage :=
  rule.groups.foldl (ConditionGroup.storageAfter rule.trigger) s

end Rule

end JokerScript
