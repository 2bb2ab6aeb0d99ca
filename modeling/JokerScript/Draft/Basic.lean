import JokerScript.Json.Basic
import JokerScript.Number.Basic

/-!
# Drafts

An editor keeps jokers as drafts: the kinds of conditions and effects are plain tags,
and their parameters are bags of JSON values. A draft is validated once, and becomes a
joker.

## Main definitions

* `DraftJoker`, `DraftRule`, `DraftGroup`, `DraftCondition`, `DraftEffect`,
  `DraftVariable` — the records of an editor.
-/

namespace JokerScript

/-- The parameters of a condition or an effect, by name. -/
abbrev Params := List (String × Json)

/-- A condition as the editor keeps it. -/
structure DraftCondition where
  id : String := ""
  kind : String
  negate : Bool := false
  params : Params := []
deriving Repr

/-- A group of conditions as the editor keeps it. -/
structure DraftGroup where
  operator : Option String := none
  conditions : List DraftCondition := []
deriving Repr

/-- An effect as the editor keeps it. -/
structure DraftEffect where
  id : String
  kind : String
  params : Params := []
  customMessage : Option String := none
deriving Repr

/-- A rule as the editor keeps it. -/
structure DraftRule where
  id : String
  trigger : Option String := none
  groups : List DraftGroup := []
  effects : List DraftEffect := []
deriving Repr

/-- A variable as the editor keeps it. -/
structure DraftVariable where
  name : String
  kind : Option String := none
  initial : Option Number := none
deriving Repr

/-- A joker as the editor keeps it. -/
structure DraftJoker where
  id : String
  key : String
  name : String := ""
  rules : List DraftRule := []
  vars : List DraftVariable := []
deriving Repr

end JokerScript
