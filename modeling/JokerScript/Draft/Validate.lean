import JokerScript.Draft.Params
import JokerScript.Joker.Basic

/-!
# Validating Drafts

A draft of a rule becomes a rule or is refused at the first fault: the trigger first,
then the conditions, then the effects, each in order. A missing parameter takes its
default. Some unknown tags take a default as well; any other value that means nothing is
a fault. The rules of a joker are judged one by one.

## Main definitions

* `DraftCondition.validate`, `DraftEffect.validate`, `DraftRule.validate` — the parts.
* `DraftJoker.validate` — a joker, and the rules that were refused.
-/

namespace JokerScript

/-- The fault of a parameter whose text is not known as a `what`. -/
def unknownValue (name what text : String) : CompileError :=
  .invalidParameter name ("unknown " ++ what ++ " `" ++ text ++ "`")

/-! ### Conditions -/

namespace DraftCondition

/-- The suits that a condition asks for. -/
def choice (params : Params) : Except CompileError SuitChoice :=
  match (params.text? "suit_type").getD "specific" with
  | "specific" =>
    match params.text? "specific_suit" with
    | some name => .ok (.named name)
    | none => .error (.invalidParameter "specific_suit" "missing")
  | "group" =>
    let tag := (params.text? "suit_group").getD ""
    match Tagged.ofTag? tag with
    | some colour => .ok (.coloured colour)
    | none => .error (unknownValue "suit_group" "group" tag)
  | other => .error (unknownValue "suit_type" "selection" other)

/-- The part of the hand that a condition looks at: any scope but `scoring` means all of
it. Discarded cards have no scope. -/
def scope (params : Params) (subject : CardSubject) : HandScope :=
  match params.text? "card_scope" with
  | none => .scoring
  | some tag => if tag = "scoring" ∨ subject = .discarded then .scoring else .all

/-- What a condition asks of the suits of its cards. -/
def test (params : Params) (subject : CardSubject) : Except CompileError SuitTest := do
  let choice ← choice params
  return { choice, quantifier := params.lenient "quantifier" .atLeastOne,
           scope := scope params subject, count := params.quantity? "count" }

/-- The condition of a draft. -/
def validate (c : DraftCondition) : Except CompileError Condition :=
  match Tagged.ofTag? c.kind with
  | some subject => (test c.params subject).map fun test => { subject, test, negate := c.negate }
  | none => .error (.unknownConditionKind c.kind)

end DraftCondition

namespace DraftGroup

/-- The connective of a group; all that is not `or` is `and`. -/
def connective (g : DraftGroup) : Connective :=
  if g.operator = some "or" then .or else .and

/-- The group of a draft. -/
def validate (g : DraftGroup) : Except CompileError ConditionGroup := do
  let conditions ← g.conditions.mapM DraftCondition.validate
  return { connective := g.connective, conditions }

end DraftGroup

/-! ### Effects -/

namespace DraftEffect

/-- The joker to create. -/
def createJoker (params : Params) : JokerCreation :=
  let byRarity : JokerChoice :=
    match params.text? "rarity" with
    | none => .random
    | some name => if name = "random" then .random else .ofRarity (.ofName name)
  let selection :=
    match params.text? "joker_type", params.text? "joker_key" with
    | some "specific", some key => .specific key
    | _, _ => byRarity
  { selection, edition := params.choice? "edition", sticker := params.choice? "sticker",
    ignoreSlots := params.text? "ignore_slots" == some "ignore" }

/-- The consumable to destroy. -/
def destroyConsumable (params : Params) : Except CompileError ConsumableRemoval :=
  match params.text? "consumable_type" with
  | none => .ok { target := .any }
  | some tag =>
    if tag = "random" then
      .ok { target := .any }
    else
      match Tagged.ofTag? tag with
      | some set =>
        let card := (params.text? "specific_card").filter fun name => name != "random"
        .ok { target := .ofSet set card }
      | none => .error (unknownValue "consumable_type" "set" tag)

/-- A choice that has a default if nothing is given, but none for an unknown tag. -/
def strict {α : Type} [Tagged α] (params : Params) (name what : String) (default : α) :
    Except CompileError α :=
  match params.text? name with
  | none => .ok default
  | some tag =>
    match Tagged.ofTag? tag with
    | some a => .ok a
    | none => .error (unknownValue name what tag)

/-- The change to the number of hands. -/
def editHand (params : Params) : Except CompileError HandChange := do
  let operation ← strict params "operation" "operation" .add
  let duration ← strict params "duration" "duration" .permanent
  return { operation, duration, value := params.quantityOrOne "value" }

/-- The change to the blind. -/
def modifyBlind (params : Params) : BlindChange :=
  { operation := params.lenient "operation" .multiply
    value := params.quantityOrOne "value" }

/-- The discount. -/
def discountItems (params : Params) : Except CompileError Discount := do
  let target ← strict params "discount_type" "item type" .planet
  return { target, method := params.lenient "discount_method" .makeFree,
           amount := params.amount "discount_amount" }

/-- The suit that is given for a parameter. -/
def suit (params : Params) (name : String) : Except CompileError Suit :=
  let tag := (params.text? name).getD ""
  match Suit.ofName? tag with
  | some s => .ok s
  | none => .error (unknownValue name "suit" tag)

/-- The two suits, which must differ. -/
def combineSuits (params : Params) : Except CompileError SuitPair := do
  let first ← suit params "first_suit"
  let second ← suit params "second_suit"
  if first = second then
    throw (.invalidParameter "second_suit" "must differ from first_suit")
  else
    return { first, second }

/-- The kind of an effect. -/
def validKind (e : DraftEffect) : Except CompileError EffectKind :=
  match e.kind with
  | "create_joker" => .ok (.createJoker (createJoker e.params))
  | "destroy_consumable" => (destroyConsumable e.params).map .destroyConsumable
  | "edit_hand" => (editHand e.params).map .editHand
  | "modify_blind_requirement" => .ok (.modifyBlind (modifyBlind e.params))
  | "discount_items" => (discountItems e.params).map .discountItems
  | "free_rerolls" => .ok (.freeRerolls { amount := e.params.amount "reroll_amount" })
  | "combine_suits" => (combineSuits e.params).map .combineSuits
  | other => .error (.unknownEffectKind other)

/-- The effect of a draft. An empty message is none. -/
def validate (e : DraftEffect) : Except CompileError Effect :=
  e.validKind.map fun kind =>
    { id := ⟨e.id⟩, kind, customMessage := e.customMessage.filter fun m => !m.isEmpty }

end DraftEffect

/-! ### Rules and jokers -/

namespace DraftRule

/-- The trigger of a rule; the empty text is no trigger, and without one the rule fires
when a hand is played. -/
def validTrigger (r : DraftRule) : Except CompileError Trigger :=
  match r.trigger with
  | none => .ok .handPlayed
  | some tag => if tag.isEmpty then .ok .handPlayed else Trigger.ofTag tag

/-- The rule of a draft. A fault in an effect is reported with the effect. -/
def validate (r : DraftRule) : Except RuleError Rule := do
  let trigger ← r.validTrigger.mapError fun e => (none, e)
  let groups ← r.groups.mapM fun g => g.validate.mapError fun e => (none, e)
  let effects ← r.effects.mapM fun e => e.validate.mapError fun error => (some ⟨e.id⟩, error)
  return { id := ⟨r.id⟩, trigger, groups, effects }

end DraftRule

namespace DraftVariable

/-- The type of a variable; an unknown one is a number. -/
def validKind (v : DraftVariable) : VariableKind :=
  match v.kind with
  | some "suit" => .suit
  | some "rank" => .rank
  | some "pokerhand" | some "poker_hand" => .pokerHand
  | _ => .number

/-- The variable of a draft. -/
def validate (v : DraftVariable) : Variable :=
  { name := v.name, kind := v.validKind, initial := v.initial.getD (Number.zero false) }

end DraftVariable

namespace DraftJoker

/-- The rules that are valid, and the failures of the others, each in order. -/
def validateRules (joker : JokerId) : List DraftRule → List Rule × List RuleFailure
  | [] => ([], [])
  | r :: rest =>
    let (rules, failures) := validateRules joker rest
    match r.validate with
    | .ok rule => (rule :: rules, failures)
    | .error error => (rules, RuleFailure.ofError joker ⟨r.id⟩ error :: failures)

/-- The joker of a draft, with its valid rules, and the failures of the other rules. -/
def validate (j : DraftJoker) : Joker × List RuleFailure :=
  let (rules, failures) := validateRules ⟨j.id⟩ j.rules
  ({ id := ⟨j.id⟩, key := ⟨j.key⟩, name := j.name, rules,
     vars := j.vars.map DraftVariable.validate }, failures)

end DraftJoker

end JokerScript
