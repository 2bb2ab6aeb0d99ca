import JokerScript.Joker.Quantity
import JokerScript.Joker.Suit

/-!
# Conditions

A rule applies its effects only if its conditions hold. Conditions stand in groups; all
groups must hold, and a group asks for all or for one of its conditions.

## Main definitions

* `Quantifier`, `HandScope`, `SuitTest` — how many of which cards must match.
* `CardSubject`, `Condition`, `ConditionGroup` — conditions as authored.
-/

namespace JokerScript

/-- How many of the cards must match. -/
inductive Quantifier
  | atLeastOne
  /-- Every card matches, and there is a card. -/
  | all
  | exactly
  | atLeast
  /-- At most the given count matches, and at least one card does. -/
  | atMost
deriving DecidableEq, Repr

instance : Tagged Quantifier where
  all := [.atLeastOne, .all, .exactly, .atLeast, .atMost]
  tag
    | .atLeastOne => "at_least_one"
    | .all => "all"
    | .exactly => "exactly"
    | .atLeast => "at_least"
    | .atMost => "at_most"
  find_tag := by intro a; cases a <;> rfl

namespace Quantifier

/-- Does the quantifier compare with a count? -/
def isCounting : Quantifier → Bool
  | exactly | atLeast | atMost => true
  | atLeastOne | all => false

end Quantifier

/-- Which of the played cards are looked at. -/
inductive HandScope
  | scoring
  | all
deriving DecidableEq, Repr

instance : Tagged HandScope where
  all := [.scoring, .all]
  tag
    | .scoring => "scoring"
    | .all => "all"
  find_tag := by intro a; cases a <;> rfl

/-- What is asked of the suits of some cards. -/
structure SuitTest where
  choice : SuitChoice
  quantifier : Quantifier := .atLeastOne
  scope : HandScope := .scoring
  /-- The count of a counting quantifier; one if there is none. -/
  count : Option Quantity := none
deriving DecidableEq, Repr

/-- The cards that a condition is about; the tag is that of the kind of condition. -/
inductive CardSubject
  /-- The cards played, scored, held or destroyed. -/
  | played
  /-- The cards discarded. -/
  | discarded
deriving DecidableEq, Repr

instance : Tagged CardSubject where
  all := [.played, .discarded]
  tag
    | .played => "card_suit"
    | .discarded => "discarded_card_suit"
  find_tag := by intro a; cases a <;> rfl

/-- A condition, possibly negated. -/
structure Condition where
  subject : CardSubject
  test : SuitTest
  negate : Bool := false
deriving DecidableEq, Repr

/-- How the conditions of a group combine. -/
inductive Connective
  | and
  | or
deriving DecidableEq, Repr

instance : Tagged Connective where
  all := [.and, .or]
  tag
    | .and => "and"
    | .or => "or"
  find_tag := by intro a; cases a <;> rfl

/-- Conditions that combine by one connective. -/
structure ConditionGroup where
  connective : Connective := .and
  conditions : List Condition
deriving DecidableEq, Repr

end JokerScript
