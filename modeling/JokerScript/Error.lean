import JokerScript.Hook.Category
import JokerScript.Identity
import JokerScript.Trigger

/-!
# Errors

An error ends the rule that it arises in; the other rules are compiled all the same. A
value that means nothing is not an error: it counts as zero.

## Main definitions

* `CompileError`, `CompileError.message` — the causes and their wording.
* `RuleError`, `RuleFailure` — an error in a rule, and a rule that was given up.
-/

namespace JokerScript

/-- Why a rule, or a whole compilation, fails. -/
inductive CompileError
  | unknownConditionKind (kind : String)
  | unknownEffectKind (kind : String)
  | unknownHookCategory (category : String)
  | unknownTrigger (trigger : String)
  /-- An effect of this kind has no code for triggers of this class. -/
  | missingTriggerClassShape (kind : String) (triggerClass : TriggerClass)
  /-- A hook request filed under one category holds the parameters of another. -/
  | hookParamsMismatch (category found : HookCategory)
  | duplicateConfigVariable (name : String)
  | invalidParameter (name reason : String)
deriving DecidableEq, Repr

namespace CompileError

/-- The name of the cause. -/
def kind : CompileError → String
  | unknownConditionKind _ => "unknown_condition_kind"
  | unknownEffectKind _ => "unknown_effect_kind"
  | unknownHookCategory _ => "unknown_hook_category"
  | unknownTrigger _ => "unknown_trigger"
  | missingTriggerClassShape .. => "missing_trigger_class_shape"
  | hookParamsMismatch .. => "hook_params_mismatch"
  | duplicateConfigVariable _ => "duplicate_config_variable"
  | invalidParameter .. => "invalid_parameter"

/-- The message for the author. -/
def message : CompileError → String
  | unknownConditionKind kind => "unknown condition kind `" ++ kind ++ "`"
  | unknownEffectKind kind => "unknown effect kind `" ++ kind ++ "`"
  | unknownHookCategory category => "unknown hook category `" ++ category ++ "`"
  | unknownTrigger trigger => "unknown trigger `" ++ trigger ++ "`"
  | missingTriggerClassShape kind triggerClass =>
    "effect `" ++ kind ++ "` has no statement shape for " ++ Tagged.tag triggerClass ++
      " triggers"
  | hookParamsMismatch category found =>
    "hook request filed under " ++ Tagged.tag category ++ " carries " ++ Tagged.tag found ++
      " parameters"
  | duplicateConfigVariable name => "config variable `" ++ name ++ "` is already declared"
  | invalidParameter name reason => "invalid parameter `" ++ name ++ "`: " ++ reason

/-- What the JSON form says about the cause. -/
def detail : CompileError → Json
  | unknownConditionKind text | unknownEffectKind text | unknownHookCategory text
  | unknownTrigger text | duplicateConfigVariable text => .str text
  | missingTriggerClassShape kind triggerClass =>
    .obj [("kind", .str kind), ("class", Tagged.toJson triggerClass)]
  | hookParamsMismatch category found =>
    .obj [("category", Tagged.toJson category), ("found", Tagged.toJson found)]
  | invalidParameter name reason => .obj [("name", .str name), ("reason", .str reason)]

/-- The JSON form: the name of the cause with its detail. -/
def toJson (e : CompileError) : Json := .obj [(e.kind, e.detail)]

end CompileError

/-- The trigger of a tag. -/
def Trigger.ofTag (tag : String) : Except CompileError Trigger :=
  match Tagged.ofTag? tag with
  | some trigger => .ok trigger
  | none => .error (.unknownTrigger tag)

/-- Where in a rule an error arose, if it was at an effect, and the error. -/
abbrev RuleError := Option EffectId × CompileError

/-- A rule that was given up. -/
structure RuleFailure where
  joker : JokerId
  rule : RuleId
  /-- The effect at which the rule failed, if it was at one. -/
  effect : Option EffectId
  error : CompileError
deriving DecidableEq, Repr

namespace RuleFailure

/-- The failure of a rule by an error. -/
def ofError (joker : JokerId) (rule : RuleId) (error : RuleError) : RuleFailure :=
  ⟨joker, rule, error.1, error.2⟩

/-- The message for the author. -/
def message (failure : RuleFailure) : String :=
  failure.rule.label ++ " of " ++ failure.joker.label ++ " failed: " ++ failure.error.message

/-- The JSON form. -/
def toJson (failure : RuleFailure) : Json :=
  .obj [("joker", .str failure.joker.text), ("rule", .str failure.rule.text),
    ("effect", Json.ofOption (fun id => .str id.text) failure.effect),
    ("error", failure.error.toJson)]

end RuleFailure

end JokerScript
