import JokerScript.Joker.Basic
import JokerScript.Json.Decode

/-!
# The JSON Form of Jokers

Every part of a joker has a JSON form and is read back from it. Records are objects
whose members have the names of their parts; a member that has a default may be missing.
A choice with data is an object with the tag as its only member, and the kinds of
conditions and effects are objects with a `type` and `params`. The decoders of what may
stand in `params` take the form that tags have there.

## Main definitions

* `Joker.toJson`, `Joker.ofJson?` — and the same pair for each part of a joker.
-/

namespace JokerScript

/-- The JSON form of a number that a joker holds: `null` where JSON has no numeral. -/
def Number.toJson (n : Number) : Json := if n.isFinite then .float n else .null

/-- The JSON form of an optional text. -/
def optionalText (text : Option String) : Json := Json.ofOption .str text

/-! ### Quantities -/

namespace Quantity

/-- The JSON form: the bare number or text. -/
def toJson : Quantity → Json
  | number n => n.toJson
  | text s => .str s

/-- The quantity of a JSON form. -/
def ofJson? (j : Json) : Option Quantity :=
  match j with
  | .str s => some (text s)
  | j => j.number?.map number

end Quantity

/-! ### Conditions -/

namespace SuitChoice

/-- The JSON form. -/
def toJson : SuitChoice → Json
  | named name => .obj [("specific", .str name)]
  | coloured colour => .obj [("group", Tagged.toJson colour)]

/-- The choice of a JSON form. -/
def ofJson? (form : TagForm) (j : Json) : Option SuitChoice :=
  match j.variant? with
  | some ("specific", some name) => name.string?.map named
  | some ("group", some colour) => (Tagged.ofJson? form colour).map coloured
  | _ => none

end SuitChoice

namespace SuitTest

/-- The JSON form. -/
def toJson (t : SuitTest) : Json :=
  .obj [("selection", t.choice.toJson), ("quantifier", Tagged.toJson t.quantifier),
    ("scope", Tagged.toJson t.scope), ("count", Json.ofOption Quantity.toJson t.count)]

/-- The test of a JSON form. -/
def ofJson? (form : TagForm) (j : Json) : Option SuitTest := do
  let members ← j.members?
  let choice ← Json.required members "selection" (SuitChoice.ofJson? form)
  let quantifier ← Json.withDefault members "quantifier" .atLeastOne (Tagged.ofJson? form)
  let scope ← Json.withDefault members "scope" .scoring (Tagged.ofJson? form)
  let count ← Json.optional members "count" Quantity.ofJson?
  some { choice, quantifier, scope, count }

end SuitTest

namespace Condition

/-- The JSON form of what a condition asks, before it is negated. -/
def kindToJson (subject : CardSubject) (test : SuitTest) : Json :=
  Json.typed (Tagged.tag subject) test.toJson

/-- What a condition asks, from its JSON form. -/
def kindOfJson? (j : Json) : Option (CardSubject × SuitTest) := do
  let (tag, params) ← j.typed?
  let subject ← Tagged.ofTag? tag
  let test ← SuitTest.ofJson? .lenient params
  some (subject, test)

/-- The JSON form. -/
def toJson (c : Condition) : Json :=
  .obj [("kind", kindToJson c.subject c.test), ("negate", .bool c.negate)]

/-- The condition of a JSON form. -/
def ofJson? (j : Json) : Option Condition := do
  let members ← j.members?
  let (subject, test) ← Json.required members "kind" kindOfJson?
  let negate ← Json.withDefault members "negate" false Json.bool?
  some { subject, test, negate }

end Condition

namespace ConditionGroup

/-- The JSON form. -/
def toJson (g : ConditionGroup) : Json :=
  .obj [("operator", Tagged.toJson g.connective),
    ("conditions", .arr (g.conditions.map Condition.toJson))]

/-- The group of a JSON form. -/
def ofJson? (j : Json) : Option ConditionGroup := do
  let members ← j.members?
  let connective ← Json.withDefault members "operator" .and (Tagged.ofJson? .strict)
  let conditions ← Json.required members "conditions" (Json.list? Condition.ofJson?)
  some { connective, conditions }

end ConditionGroup

/-! ### Parameters of effects -/

namespace Rarity

/-- The JSON form. -/
def toJson : Rarity → Json
  | common => .str "common"
  | uncommon => .str "uncommon"
  | rare => .str "rare"
  | legendary => .str "legendary"
  | custom name => .obj [("custom", .str name)]

/-- The rarity of a JSON form. -/
def ofJson? (form : TagForm) (j : Json) : Option Rarity :=
  match j.variant? with
  | some ("custom", some name) => name.string?.map custom
  | _ =>
    match j.tag? form with
    | some "common" => some common
    | some "uncommon" => some uncommon
    | some "rare" => some rare
    | some "legendary" => some legendary
    | _ => none

end Rarity

namespace JokerChoice

/-- The JSON form. -/
def toJson : JokerChoice → Json
  | random => .str "random"
  | ofRarity rarity => .obj [("of_rarity", rarity.toJson)]
  | specific key => .obj [("specific", .str key)]

/-- The selection of a JSON form. -/
def ofJson? (form : TagForm) (j : Json) : Option JokerChoice :=
  match j.variant? with
  | some ("of_rarity", some rarity) => (Rarity.ofJson? form rarity).map ofRarity
  | some ("specific", some key) => key.string?.map specific
  | _ => if j.tag? form = some "random" then some random else none

end JokerChoice

namespace JokerCreation

/-- The JSON form. -/
def toJson (p : JokerCreation) : Json :=
  .obj [("selection", p.selection.toJson), ("edition", optionalText p.edition),
    ("sticker", optionalText p.sticker), ("ignore_slots", .bool p.ignoreSlots)]

/-- The parameters of a JSON form. -/
def ofJson? (form : TagForm) (j : Json) : Option JokerCreation := do
  let members ← j.members?
  let selection ← Json.withDefault members "selection" .random (JokerChoice.ofJson? form)
  let edition ← Json.optional members "edition" Json.string?
  let sticker ← Json.optional members "sticker" Json.string?
  let ignoreSlots ← Json.withDefault members "ignore_slots" false Json.bool?
  some { selection, edition, sticker, ignoreSlots }

end JokerCreation

namespace ConsumableChoice

/-- The JSON form. -/
def toJson : ConsumableChoice → Json
  | any => .str "any"
  | ofSet set card =>
    .obj [("of_set", .obj [("set", Tagged.toJson set), ("card", optionalText card)])]

/-- The target of a JSON form. -/
def ofJson? (form : TagForm) (j : Json) : Option ConsumableChoice :=
  match j.variant? with
  | some ("of_set", some data) => do
    let members ← data.members?
    let set ← Json.required members "set" (Tagged.ofJson? form)
    let card ← Json.optional members "card" Json.string?
    some (ofSet set card)
  | _ => if j.tag? form = some "any" then some any else none

end ConsumableChoice

namespace ConsumableRemoval

/-- The JSON form. -/
def toJson (p : ConsumableRemoval) : Json := .obj [("target", p.target.toJson)]

/-- The parameters of a JSON form. -/
def ofJson? (form : TagForm) (j : Json) : Option ConsumableRemoval := do
  let members ← j.members?
  let target ← Json.withDefault members "target" .any (ConsumableChoice.ofJson? form)
  some { target }

end ConsumableRemoval

namespace HandChange

/-- The JSON form. -/
def toJson (p : HandChange) : Json :=
  .obj [("operation", Tagged.toJson p.operation), ("duration", Tagged.toJson p.duration),
    ("value", p.value.toJson)]

/-- The parameters of a JSON form. -/
def ofJson? (form : TagForm) (j : Json) : Option HandChange := do
  let members ← j.members?
  let operation ← Json.withDefault members "operation" .add (Tagged.ofJson? form)
  let duration ← Json.withDefault members "duration" .permanent (Tagged.ofJson? form)
  let value ← Json.required members "value" Quantity.ofJson?
  some { operation, duration, value }

end HandChange

namespace BlindChange

/-- The JSON form. -/
def toJson (p : BlindChange) : Json :=
  .obj [("operation", Tagged.toJson p.operation), ("value", p.value.toJson)]

/-- The parameters of a JSON form. -/
def ofJson? (form : TagForm) (j : Json) : Option BlindChange := do
  let members ← j.members?
  let operation ← Json.withDefault members "operation" .multiply (Tagged.ofJson? form)
  let value ← Json.required members "value" Quantity.ofJson?
  some { operation, value }

end BlindChange

namespace Discount

/-- The JSON form. -/
def toJson (p : Discount) : Json :=
  .obj [("target", Tagged.toJson p.target), ("method", Tagged.toJson p.method),
    ("amount", p.amount.toJson)]

/-- The parameters of a JSON form. -/
def ofJson? (form : TagForm) (j : Json) : Option Discount := do
  let members ← j.members?
  let target ← Json.withDefault members "target" .planet (Tagged.ofJson? form)
  let method ← Json.withDefault members "method" .makeFree (Tagged.ofJson? form)
  let amount ← Json.withDefault members "amount" Number.one Json.number?
  some { target, method, amount }

end Discount

namespace RerollGrant

/-- The JSON form. -/
def toJson (p : RerollGrant) : Json := .obj [("amount", p.amount.toJson)]

/-- The parameters of a JSON form. -/
def ofJson? (j : Json) : Option RerollGrant := do
  let members ← j.members?
  let amount ← Json.withDefault members "amount" Number.one Json.number?
  some { amount }

end RerollGrant

namespace SuitPair

/-- The JSON form. -/
def toJson (p : SuitPair) : Json :=
  .obj [("first", Tagged.toJson p.first), ("second", Tagged.toJson p.second)]

/-- The parameters of a JSON form. -/
def ofJson? (form : TagForm) (j : Json) : Option SuitPair := do
  let members ← j.members?
  let first ← Json.required members "first" (Tagged.ofJson? form)
  let second ← Json.required members "second" (Tagged.ofJson? form)
  some { first, second }

end SuitPair

/-! ### Effects -/

namespace EffectKind

/-- The JSON form of the parameters. -/
def paramsJson : EffectKind → Json
  | createJoker params => params.toJson
  | destroyConsumable params => params.toJson
  | editHand params => params.toJson
  | modifyBlind params => params.toJson
  | discountItems params => params.toJson
  | freeRerolls params => params.toJson
  | combineSuits params => params.toJson

/-- The JSON form. -/
def toJson (kind : EffectKind) : Json := Json.typed kind.tag kind.paramsJson

/-- The kind of a JSON form. -/
def ofJson? (j : Json) : Option EffectKind :=
  match j.typed? with
  | some ("create_joker", params) => (JokerCreation.ofJson? .lenient params).map createJoker
  | some ("destroy_consumable", params) =>
    (ConsumableRemoval.ofJson? .lenient params).map destroyConsumable
  | some ("edit_hand", params) => (HandChange.ofJson? .lenient params).map editHand
  | some ("modify_blind_requirement", params) =>
    (BlindChange.ofJson? .lenient params).map modifyBlind
  | some ("discount_items", params) => (Discount.ofJson? .lenient params).map discountItems
  | some ("free_rerolls", params) => (RerollGrant.ofJson? params).map freeRerolls
  | some ("combine_suits", params) => (SuitPair.ofJson? .lenient params).map combineSuits
  | _ => none

end EffectKind

namespace Effect

/-- The JSON form. -/
def toJson (effect : Effect) : Json :=
  .obj [("id", .str effect.id.text), ("kind", effect.kind.toJson),
    ("custom_message", optionalText effect.customMessage)]

/-- The effect of a JSON form. -/
def ofJson? (j : Json) : Option Effect := do
  let members ← j.members?
  let id ← Json.required members "id" Json.string?
  let kind ← Json.required members "kind" EffectKind.ofJson?
  let customMessage ← Json.optional members "custom_message" Json.string?
  some { id := ⟨id⟩, kind, customMessage }

end Effect

/-! ### Rules and jokers -/

namespace Rule

/-- The JSON form. -/
def toJson (rule : Rule) : Json :=
  .obj [("id", .str rule.id.text), ("trigger", Tagged.toJson rule.trigger),
    ("groups", .arr (rule.groups.map ConditionGroup.toJson)),
    ("effects", .arr (rule.effects.map Effect.toJson))]

/-- The rule of a JSON form. -/
def ofJson? (j : Json) : Option Rule := do
  let members ← j.members?
  let id ← Json.required members "id" Json.string?
  let trigger ← Json.withDefault members "trigger" .handPlayed (Tagged.ofJson? .strict)
  let groups ← Json.withDefault members "groups" [] (Json.list? ConditionGroup.ofJson?)
  let effects ← Json.withDefault members "effects" [] (Json.list? Effect.ofJson?)
  some { id := ⟨id⟩, trigger, groups, effects }

end Rule

namespace Variable

/-- The JSON form. -/
def toJson (v : Variable) : Json :=
  .obj [("name", .str v.name), ("kind", Tagged.toJson v.kind), ("initial", v.initial.toJson)]

/-- The variable of a JSON form. -/
def ofJson? (j : Json) : Option Variable := do
  let members ← j.members?
  let name ← Json.required members "name" Json.string?
  let kind ← Json.withDefault members "kind" .number (Tagged.ofJson? .strict)
  let initial ← Json.withDefault members "initial" (Number.zero false) Json.number?
  some { name, kind, initial }

end Variable

namespace Joker

/-- The JSON form. -/
def toJson (joker : Joker) : Json :=
  .obj [("id", .str joker.id.text), ("key", .str joker.key.text), ("name", .str joker.name),
    ("rules", .arr (joker.rules.map Rule.toJson)),
    ("variables", .arr (joker.vars.map Variable.toJson))]

/-- The joker of a JSON form. -/
def ofJson? (j : Json) : Option Joker := do
  let members ← j.members?
  let id ← Json.required members "id" Json.string?
  let key ← Json.required members "key" Json.string?
  let name ← Json.withDefault members "name" "" Json.string?
  let rules ← Json.withDefault members "rules" [] (Json.list? Rule.ofJson?)
  let vars ← Json.withDefault members "variables" [] (Json.list? Variable.ofJson?)
  some { id := ⟨id⟩, key := ⟨key⟩, name, rules, vars }

end Joker

end JokerScript
