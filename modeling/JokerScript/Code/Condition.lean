import JokerScript.Code.Setting
import JokerScript.Resolve.Basic
import JokerScript.Resolve.SuitReading

/-!
# The Code of Conditions

A condition becomes one expression that is truthy exactly if the condition holds. A
trigger about a single card asks about that card alone. Otherwise the cards in play are
gone through by a function that is called where it stands, so its variables stay its
own.

## Main definitions

* `SuitTest.code`, `Condition.code`, `ConditionGroup.code?` — tests, conditions and
  groups.
* `Rule.conditionCode?` — all conditions of a rule.
-/

namespace JokerScript

open Lua

/-! ### Tests of suits -/

namespace SuitTest

/-- The list of cards that a test goes through. Discarded cards are never scored. -/
def candidates (subject : CardSubject) (scope : HandScope) (trigger : Trigger) : String :=
  if subject = .played ∧ scope = .scoring ∧ !trigger.isDiscard then
    "context.scoring_hand"
  else
    "context.full_hand"

/-- Does one of the destroyed cards match? -/
def anyRemoved (suits : SuitReading) : Expr :=
  .invoked
    [.forItems "_" "removed_card" (.path "context.removed")
      [.ifThen (suits.check (.path "removed_card")) [.returning (.bool true)]],
     .returning (.bool false)]

/-- A loop over the candidates that does `body` for each that `test` holds of. -/
def forEach (cards : String) (test : Expr) (body : Block) : Stmt :=
  .forItems "_" "c" (.path cards) [.ifThen test body]

/-- How the number of matching cards compares with the count. Without a match, no count is
at most reached. -/
def countTest (quantifier : Quantifier) (count : Expr) : Expr :=
  let matched : Expr := .path "suit_count"
  match quantifier with
  | .exactly => matched.equals count
  | .atLeast => matched.ge count
  | .atLeastOne | .all | .atMost => (matched.le count).and (matched.gt .zero)

/-- Do as many candidates match as the quantifier asks for? -/
def quantified (quantifier : Quantifier) (cards : String) (suits : SuitReading)
    (count : Expr) : Expr :=
  let test := suits.check (.path "c")
  match quantifier with
  | .atLeastOne =>
    .invoked
      [.letLocal "suit_found" (.bool false),
       forEach cards test [.set "suit_found" (.bool true), .leave],
       .returning (.path "suit_found")]
  | .all =>
    .invoked
      [.letLocal "all_match" (.bool true),
       forEach cards test.negation [.set "all_match" (.bool false), .leave],
       .returning ((Expr.path "all_match").and ((Expr.path cards).length.gt .zero))]
  | .exactly | .atLeast | .atMost =>
    .invoked
      [.letLocal "suit_count" .zero,
       forEach cards test [.set "suit_count" ((Expr.path "suit_count").plus .one)],
       .returning (countTest quantifier count)]

/-- The expression of the count that a test compares with. A quantifier that does not
count asks for no count. -/
def countCode (setting : Setting) (rule : RuleId) (t : SuitTest) : Resolver Expr := do
  if t.quantifier.isCounting then
    let count := t.count.getD (.number Number.one)
    let resolved ← resolve setting.naming (.inline "count" rule.text) count
    return resolved.expr
  else
    return .one

/-- The code of a test. -/
def code (setting : Setting) (rule : RuleId) (trigger : Trigger) (subject : CardSubject)
    (t : SuitTest) : Resolver Expr := do
  let suits := SuitReading.ofChoice setting.joker t.choice
  match trigger.singleCard? with
  | some .otherCard => return suits.check (.path "context.other_card")
  | some .removed => return anyRemoved suits
  | none =>
    let count ← t.countCode setting rule
    return quantified t.quantifier (candidates subject t.scope trigger) suits count

end SuitTest

/-! ### Conditions, groups and rules -/

namespace Condition

/-- The code of a condition of a rule. -/
def code (setting : Setting) (rule : RuleId) (trigger : Trigger) (c : Condition) :
    Resolver Expr := do
  let e ← c.test.code setting rule trigger c.subject
  return if c.negate then e.negation else e

end Condition

namespace ConditionGroup

/-- The connective of a group between the expressions of its conditions. -/
def combine (connective : Connective) (es : List Expr) : Expr :=
  match connective with
  | .and => .allOf es
  | .or => .anyOf es

/-- The code of a group; an empty group has none. -/
def code? (setting : Setting) (rule : RuleId) (trigger : Trigger) (g : ConditionGroup) :
    Resolver (Option Expr) := do
  if g.conditions.isEmpty then
    return none
  else
    let es ← g.conditions.mapM (Condition.code setting rule trigger)
    return some (combine g.connective es)

end ConditionGroup

namespace Rule

/-- The code of the conditions of a rule: every group must hold. A rule without
conditions has none. -/
def conditionCode? (setting : Setting) (rule : Rule) : Resolver (Option Expr) := do
  let groups ← rule.groups.mapM (ConditionGroup.code? setting rule.id rule.trigger)
  let present := groups.filterMap fun g => g
  return if present.isEmpty then none else some (.allOf present)

end Rule

end JokerScript
