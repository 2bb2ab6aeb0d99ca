import JokerScript.Joker.Condition
import JokerScript.Joker.Effect
import JokerScript.Trigger

/-!
# Jokers

A joker has rules and variables. A rule fires at a trigger, and if its condition groups
hold, its effects happen.

## Main definitions

* `Rule`, `Variable`, `Joker` — jokers as authored.
* `Joker.findVariable`, `Joker.hasSuitVariable` — variables by name.
-/

namespace JokerScript

/-- One unit of behaviour. -/
structure Rule where
  id : RuleId
  trigger : Trigger := .handPlayed
  groups : List ConditionGroup := []
  effects : List Effect := []
deriving DecidableEq, Repr

/-- The type of a variable. -/
inductive VariableKind
  | number
  /-- The suit of a card that the game keeps for the variable. -/
  | suit
  | rank
  | pokerHand
deriving DecidableEq, Repr

instance : Tagged VariableKind where
  all := [.number, .suit, .rank, .pokerHand]
  tag
    | .number => "number"
    | .suit => "suit"
    | .rank => "rank"
    | .pokerHand => "poker_hand"
  find_tag := by intro a; cases a <;> rfl

/-- A variable of a joker. -/
structure Variable where
  name : String
  kind : VariableKind := .number
  initial : Number := Number.zero false
deriving DecidableEq, Repr

/-- A joker. -/
structure Joker where
  id : JokerId
  key : JokerKey
  name : String := ""
  rules : List Rule := []
  vars : List Variable := []
deriving DecidableEq, Repr

namespace Condition

/-- The opposite condition. -/
def negated (c : Condition) : Condition := { c with negate := !c.negate }

end Condition

namespace Rule

/-- The rule with one more group. -/
def withGroup (rule : Rule) (group : ConditionGroup) : Rule :=
  { rule with groups := rule.groups ++ [group] }

/-- The rule with one more condition, in a group of its own. -/
def withCondition (rule : Rule) (condition : Condition) : Rule :=
  rule.withGroup { connective := .and, conditions := [condition] }

/-- The rule with one more effect. -/
def withEffect (rule : Rule) (effect : Effect) : Rule :=
  { rule with effects := rule.effects ++ [effect] }

end Rule

namespace Variable

/-- A variable that holds a number. -/
def ofNumber (name : String) (initial : Number) : Variable := ⟨name, .number, initial⟩

/-- A variable that holds a suit. -/
def ofSuit (name : String) : Variable := ⟨name, .suit, Number.zero false⟩

end Variable

namespace Joker

/-- The joker with one more rule. -/
def withRule (joker : Joker) (rule : Rule) : Joker :=
  { joker with rules := joker.rules ++ [rule] }

/-- The joker with one more variable. -/
def withVariable (joker : Joker) (v : Variable) : Joker :=
  { joker with vars := joker.vars ++ [v] }

/-- The first variable of a name. -/
def findVariable (joker : Joker) (name : String) : Option Variable :=
  joker.vars.find? fun v => v.name == name

/-- Is the first variable of the name a suit variable? -/
def hasSuitVariable (joker : Joker) (name : String) : Bool :=
  match joker.findVariable name with
  | some v => v.kind == .suit
  | none => false

end Joker

end JokerScript
