import JokerScript.Joker.Json
import JokerScript.Rendered.Basic

/-!
# The JSON Form of Rendered Code

## Main definitions

* `RuleText.toJson`, `PatchText.toJson`, … — the forms, with a decoder for each
  form that other tools hand back.
-/

namespace JokerScript

namespace StoredVariable

/-- The JSON form. -/
def toJson (v : StoredVariable) : Json :=
  .obj [("name", .str v.name), ("value", v.value.toJson)]

/-- The variable of a JSON form. -/
def ofJson? (j : Json) : Option StoredVariable := do
  let members ← j.members?
  let name ← Json.required members "name" Json.string?
  let value ← Json.required members "value" Json.number?
  some { name, value }

end StoredVariable

namespace BlocksText

/-- The JSON form. -/
def toJson : BlocksText → Json
  | callback func => .obj [("shape", .str "immediate"), ("func", .str func)]
  | beforeReturn text => .obj [("shape", .str "deferred"), ("pre_return", .str text)]
  | whileHeld gain loss =>
    .obj [("shape", .str "passive"), ("add_to_deck", .str gain),
      ("remove_from_deck", .str loss)]

/-- The blocks of a JSON form. -/
def ofJson? (j : Json) : Option BlocksText := do
  let members ← j.members?
  match ← Json.required members "shape" Json.string? with
  | "immediate" => (Json.required members "func" Json.string?).map callback
  | "deferred" => (Json.required members "pre_return" Json.string?).map beforeReturn
  | "passive" => do
    let gain ← Json.required members "add_to_deck" Json.string?
    let loss ← Json.required members "remove_from_deck" Json.string?
    some (whileHeld gain loss)
  | _ => none

end BlocksText

namespace EffectText

/-- The JSON form. -/
def toJson (text : EffectText) : Json :=
  .obj [("effect_id", .str text.effectId.text), ("kind", .str text.kind),
    ("body", text.blocks.toJson), ("message", optionalText text.message),
    ("colour", optionalText text.colour)]

/-- The texts of a JSON form. -/
def ofJson? (j : Json) : Option EffectText := do
  let members ← j.members?
  let effectId ← Json.required members "effect_id" Json.string?
  let kind ← Json.required members "kind" Json.string?
  let blocks ← Json.required members "body" BlocksText.ofJson?
  let message ← Json.optional members "message" Json.string?
  let colour ← Json.optional members "colour" Json.string?
  some { effectId := ⟨effectId⟩, kind, blocks, message, colour }

end EffectText

namespace RuleText

/-- The JSON form. -/
def toJson (text : RuleText) : Json :=
  .obj [("rule_id", .str text.ruleId.text), ("trigger", Tagged.toJson text.trigger),
    ("condition", optionalText text.condition),
    ("effects", .arr (text.effects.map EffectText.toJson))]

/-- The texts of a JSON form. -/
def ofJson? (j : Json) : Option RuleText := do
  let members ← j.members?
  let ruleId ← Json.required members "rule_id" Json.string?
  let trigger ← Json.required members "trigger" (Tagged.ofJson? .strict)
  let condition ← Json.optional members "condition" Json.string?
  let effects ← Json.required members "effects" (Json.list? EffectText.ofJson?)
  some { ruleId := ⟨ruleId⟩, trigger, condition, effects }

end RuleText

namespace PatchText

/-- The JSON form. -/
def toJson (patch : PatchText) : Json :=
  .obj [("category", Tagged.toJson patch.category), ("target", .str patch.target),
    ("owners", .arr (patch.owners.map fun key => .str key.text)),
    ("source", .str patch.source)]

/-- The patch of a JSON form. -/
def ofJson? (j : Json) : Option PatchText := do
  let members ← j.members?
  let category ← Json.required members "category" HookCategory.ofJson?
  let target ← Json.required members "target" Json.string?
  let owners ← Json.required members "owners" (Json.list? Json.string?)
  let source ← Json.required members "source" Json.string?
  some { category, target, owners := owners.map JokerKey.mk, source }

end PatchText

namespace JokerText

/-- The JSON form. -/
def toJson (joker : JokerText) : Json :=
  .obj [("key", .str joker.key.text), ("config", .arr (joker.vars.map StoredVariable.toJson)),
    ("rules", .arr (joker.rules.map RuleText.toJson)),
    ("failures", .arr (joker.failures.map RuleFailure.toJson))]

end JokerText

namespace ModText

/-- The JSON form. -/
def toJson (output : ModText) : Json :=
  .obj [("jokers", .arr (output.jokers.map JokerText.toJson)),
    ("hooks", .arr (output.hooks.map PatchText.toJson))]

end ModText

end JokerScript
