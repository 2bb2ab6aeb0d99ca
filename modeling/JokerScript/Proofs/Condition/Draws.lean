import JokerScript.Proofs.Condition.Turns
import JokerScript.Proofs.Resolve.Draws

/-!
# Draws of Conditions

A condition draws only if it compares the number of matching cards with a range, and then once:
the count stands behind the loop that goes through the cards, not inside it.

## Main definitions

* `Condition.draw?` — the draw of a condition.

## Main results

* `Condition.draws_written` — the code of a condition has the draw of the condition, and no
  other.
-/

namespace JokerScript

open Lua

/-- The draw of the condition, if it draws. -/
def Condition.draw? (rule : RuleId) (trigger : Trigger) (s : Storage) (c : Condition) :
    Option Draw :=
  (c.slotRequest? trigger).map fun request => .number (request.slot s) rule.text

theorem SuitReading.draws_check (joker : Joker) (choice : SuitChoice) {card : Expr}
    (hcard : card.draws = []) : ((ofChoice joker choice).check card).draws = [] := by
  cases hreading : ofChoice joker choice with
  | stored e =>
      have he : e.draws = [] := by
        cases choice with
        | coloured colour => cases hreading
        | named name =>
            rw [ofChoice] at hreading
            split at hreading
            · obtain rfl := SuitReading.stored.inj hreading
              rfl
            · cases hreading
      simp [check, isSuit, hcard, he]
  | fixed suits =>
      rw [check]
      cases suits with
      | nil => rfl
      | cons suit suits =>
          rw [Expr.anyOf, (Joins.joined_self .or _ (by simp)).draws]
          simp [isSuit, hcard]

namespace SuitTest

/-- The count stands in the code once, if the quantifier counts. -/
theorem draws_quantified (quantifier : Quantifier) (cards : String) {suits : SuitReading}
    (hsuits : (suits.check (.path "c")).draws = []) (count : Expr) :
    (quantified quantifier cards suits count).draws =
      if quantifier.isCounting then count.draws else [] := by
  cases quantifier <;>
    simp [quantified, forEach, countTest, hsuits, Quantifier.isCounting, Expr.negation, Expr.and,
      Expr.gt, Expr.le, Expr.ge, Expr.equals, Expr.plus, Expr.length]

theorem draws_anyRemoved {suits : SuitReading}
    (hsuits : (suits.check (.path "removed_card")).draws = []) : (anyRemoved suits).draws = [] := by
  simp [anyRemoved, hsuits]

end SuitTest

namespace Condition

variable (setting : Setting) (rule : RuleId) (trigger : Trigger) (s : Storage) (c : Condition)

/-- **The code of a condition has the draw of the condition**, and no other. -/
theorem draws_written :
    (c.written setting rule trigger s).draws =
      ((c.draw? rule trigger s).map (Draw.call setting.naming)).toList := by
  have hcheck : ∀ {card : Expr}, card.draws = [] →
      ((SuitReading.ofChoice setting.joker c.test.choice).check card).draws = [] := fun hcard =>
    SuitReading.draws_check setting.joker c.test.choice hcard
  have htest : (c.test.written setting trigger c.subject
      (c.test.writtenCount setting rule s)).draws =
      ((c.draw? rule trigger s).map (Draw.call setting.naming)).toList := by
    rw [SuitTest.written, draw?, slotRequest?, SuitTest.countBounds?]
    cases hsource : trigger.singleCard? with
    | some source =>
        cases source with
        | otherCard => exact hcheck rfl
        | removed => exact SuitTest.draws_anyRemoved (hcheck rfl)
    | none =>
        simp only
        rw [SuitTest.draws_quantified _ _ (hcheck rfl), SuitTest.writtenCount]
        cases hcounting : c.test.quantifier.isCounting with
        | false => rfl
        | true =>
            refine (Source.draws_settled setting.naming _ s _ c.test.countSource).trans ?_
            cases c.test.countSource <;> rfl
  rw [written]
  split
  · exact htest
  · exact htest

variable {rule trigger s c}

/-- A condition draws a number under the slot that it claims. -/
theorem draw?_spec {d : Draw} (h : d ∈ c.draw? rule trigger s) :
    IsStreamName d.name ∧ d.isNumber = true ∧
      ∃ request ∈ c.slotRequest? trigger, d.name = request.slot s := by
  obtain ⟨request, hrequest, rfl⟩ := Option.map_eq_some_iff.mp h
  obtain ⟨bounds, -, rfl⟩ := Option.map_eq_some_iff.mp hrequest
  exact ⟨isStreamName_slot (by decide) s valueSuffixes, rfl, _, hrequest, rfl⟩

end Condition

end JokerScript
