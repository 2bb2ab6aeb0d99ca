import JokerScript.Draft.Basic
import JokerScript.Joker.Json

/-!
# The JSON Form of Drafts

## Main definitions

* `DraftJoker.toJson`, `DraftJoker.ofJson?` — and the same pair for each part of a draft.
-/

namespace JokerScript

namespace DraftCondition

/-- The JSON form. -/
def toJson (c : DraftCondition) : Json :=
  .obj [("id", .str c.id), ("type", .str c.kind), ("negate", .bool c.negate),
    ("params", .obj c.params)]

/-- The condition of a JSON form. -/
def ofJson? (j : Json) : Option DraftCondition := do
  let members ← j.members?
  let id ← Json.withDefault members "id" "" Json.string?
  let kind ← Json.required members "type" Json.string?
  let negate ← Json.withDefault members "negate" false Json.bool?
  let params ← Json.withDefault members "params" [] Json.members?
  some { id, kind, negate, params }

end DraftCondition

namespace DraftGroup

/-- The JSON form. -/
def toJson (g : DraftGroup) : Json :=
  .obj [("operator", optionalText g.operator),
    ("conditions", .arr (g.conditions.map DraftCondition.toJson))]

/-- The group of a JSON form. -/
def ofJson? (j : Json) : Option DraftGroup := do
  let members ← j.members?
  let operator ← Json.optional members "operator" Json.string?
  let conditions ←
    Json.withDefault members "conditions" [] (Json.list? DraftCondition.ofJson?)
  some { operator, conditions }

end DraftGroup

namespace DraftEffect

/-- The JSON form. -/
def toJson (e : DraftEffect) : Json :=
  .obj [("id", .str e.id), ("type", .str e.kind), ("params", .obj e.params),
    ("customMessage", optionalText e.customMessage)]

/-- The effect of a JSON form. -/
def ofJson? (j : Json) : Option DraftEffect := do
  let members ← j.members?
  let id ← Json.required members "id" Json.string?
  let kind ← Json.required members "type" Json.string?
  let params ← Json.withDefault members "params" [] Json.members?
  let customMessage ← Json.optional members "customMessage" Json.string?
  some { id, kind, params, customMessage }

end DraftEffect

namespace DraftRule

/-- The JSON form. -/
def toJson (r : DraftRule) : Json :=
  .obj [("id", .str r.id), ("trigger", optionalText r.trigger),
    ("conditionGroups", .arr (r.groups.map DraftGroup.toJson)),
    ("effects", .arr (r.effects.map DraftEffect.toJson))]

/-- The rule of a JSON form. -/
def ofJson? (j : Json) : Option DraftRule := do
  let members ← j.members?
  let id ← Json.required members "id" Json.string?
  let trigger ← Json.optional members "trigger" Json.string?
  let groups ← Json.withDefault members "conditionGroups" [] (Json.list? DraftGroup.ofJson?)
  let effects ← Json.withDefault members "effects" [] (Json.list? DraftEffect.ofJson?)
  some { id, trigger, groups, effects }

end DraftRule

namespace DraftVariable

/-- The JSON form. -/
def toJson (v : DraftVariable) : Json :=
  .obj [("name", .str v.name), ("type", optionalText v.kind),
    ("initialValue", Json.ofOption Number.toJson v.initial)]

/-- The variable of a JSON form. -/
def ofJson? (j : Json) : Option DraftVariable := do
  let members ← j.members?
  let name ← Json.required members "name" Json.string?
  let kind ← Json.optional members "type" Json.string?
  let initial ← Json.optional members "initialValue" Json.number?
  some { name, kind, initial }

end DraftVariable

namespace DraftJoker

/-- The JSON form. -/
def toJson (j : DraftJoker) : Json :=
  .obj [("id", .str j.id), ("objectKey", .str j.key), ("name", .str j.name),
    ("rules", .arr (j.rules.map DraftRule.toJson)),
    ("userVariables", .arr (j.vars.map DraftVariable.toJson))]

/-- The joker of a JSON form. -/
def ofJson? (j : Json) : Option DraftJoker := do
  let members ← j.members?
  let id ← Json.required members "id" Json.string?
  let key ← Json.required members "objectKey" Json.string?
  let name ← Json.withDefault members "name" "" Json.string?
  let rules ← Json.withDefault members "rules" [] (Json.list? DraftRule.ofJson?)
  let vars ←
    Json.withDefault members "userVariables" [] (Json.list? DraftVariable.ofJson?)
  some { id, key, name, rules, vars }

end DraftJoker

end JokerScript
