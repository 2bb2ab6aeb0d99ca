import JokerScript.Proofs.Condition.Draws
import JokerScript.Proofs.Effect.DrawnOnce
import JokerScript.Proofs.Lua.LoopDraws

/-!
# Random Numbers of Rules

A rule that asks for a random number gets one number. An effect draws its amount once, before
anything uses it. A condition that compares the number of cards with a range draws behind the loop
that counts them, so that the number of draws does not grow with the number of cards.

## Main definitions

* `Condition.HasRange` — the condition compares with a range.
* `Condition.DrawnOnce` — the count is drawn once, and in no loop.

## Main results

* `Condition.drawnOnce_written` — the code of a condition draws its count once.
* `drawnOnce_of_reachable` — the same for all that is compiled.
-/

namespace JokerScript

open Lua

/-! ### Counts -/

/-- What a quantity is settled to draws in no loop. -/
theorem Source.loopDraws_settled (naming : Naming) (request : ResolveRequest) (s : Storage)
    (slot : String) (source : Source) :
    (source.settled naming request s slot).expr.loopDraws = [] := by
  cases source with
  | range min max => rfl
  | gameVar | named | number | unresolved =>
      exact Expr.loopDraws_eq_nil (draws_settled naming request s slot _)

namespace SuitTest

/-- The test of a card draws nothing, so that a draw stands outside the loop over the cards. -/
theorem loopDraws_quantified (quantifier : Quantifier) (cards : String) {suits : SuitReading}
    (hsuits : (suits.check (.path "c")).draws = []) {count : Expr} (hcount : count.loopDraws = []) :
    (quantified quantifier cards suits count).loopDraws = [] := by
  cases quantifier <;>
    simp [quantified, forEach, countTest, hsuits, hcount, Expr.negation, Expr.and, Expr.gt, Expr.le,
      Expr.ge, Expr.equals, Expr.plus, Expr.length]

variable (setting : Setting) (rule : RuleId) (trigger : Trigger) (subject : CardSubject)

theorem loopDraws_written (s : Storage) (t : SuitTest) :
    (t.written setting trigger subject (t.writtenCount setting rule s)).loopDraws = [] := by
  have hcheck : ∀ {card : Expr}, card.draws = [] →
      ((SuitReading.ofChoice setting.joker t.choice).check card).draws = [] := fun hcard =>
    SuitReading.draws_check setting.joker t.choice hcard
  have hcount : (t.writtenCount setting rule s).loopDraws = [] := by
    rw [writtenCount]
    split
    · exact Source.loopDraws_settled _ _ _ _ _
    · rfl
  rw [written]
  cases trigger.singleCard? with
  | none => exact loopDraws_quantified _ _ (hcheck rfl) hcount
  | some source =>
      cases source with
      | otherCard => exact Expr.loopDraws_eq_nil (hcheck rfl)
      | removed => exact Expr.loopDraws_eq_nil (draws_anyRemoved (hcheck rfl))

end SuitTest

namespace Condition

/-- The condition counts cards, and compares their number with a range. -/
def HasRange (trigger : Trigger) (s : Storage) (c : Condition) : Prop :=
  trigger.singleCard? = none ∧ c.test.quantifier.isCounting = true ∧
    ∃ min max, (c.test.count.getD (.number Number.one)).StandsFor s (.draw min max)

/-- **The count of a condition is drawn once**: with one call if it is a range, and with none
otherwise, and never in a loop over cards. -/
structure DrawnOnce (trigger : Trigger) (s : Storage) (c : Condition) (e : Expr) : Prop where
  range : c.HasRange trigger s → (randomOf e.draws).length = 1
  other : ¬ c.HasRange trigger s → e.draws = []
  outside : e.loopDraws = []

variable {trigger : Trigger} {s : Storage} {c : Condition}

theorem hasRange_iff :
    c.HasRange trigger s ↔ ∃ bounds, c.test.countBounds? trigger = some bounds := by
  simp only [HasRange, Effect.standsFor_draw_iff, SuitTest.countBounds?, SuitTest.countSource]
  constructor
  · rintro ⟨hcard, hcounting, min, max, hsource⟩
    exact ⟨(min, max), by rw [hcard, hcounting, hsource]⟩
  · rintro ⟨bounds, h⟩
    split at h
    · rename_i min max hcard hcounting hsource
      exact ⟨hcard, hcounting, min, max, hsource⟩
    · cases h

/-- **The code of a condition draws its count once.** -/
theorem drawnOnce_written (setting : Setting) (rule : RuleId) (trigger : Trigger) (s : Storage)
    (c : Condition) : c.DrawnOnce trigger s (c.written setting rule trigger s) := by
  have hdraws := c.draws_written setting rule trigger s
  refine ⟨fun hrange => ?_, fun hother => ?_, ?_⟩
  · obtain ⟨bounds, hbounds⟩ := hasRange_iff.mp hrange
    rw [hdraws, draw?, slotRequest?, hbounds]
    rfl
  · have hnone : c.test.countBounds? trigger = none := by
      rw [Option.eq_none_iff_forall_ne_some]
      exact fun bounds hbounds => hother (hasRange_iff.mpr ⟨bounds, hbounds⟩)
    rw [hdraws, draw?, slotRequest?, hnone]
    rfl
  · have htest := c.test.loopDraws_written setting rule trigger c.subject s
    rw [written]
    split
    · exact htest
    · exact htest

end Condition

/-! ### Rules -/

section Rules

variable {setting : Setting} {trigger : Trigger} {s : Storage}

/-- **Random numbers are drawn once.** In every storage of a run, the code of an effect draws its
amount once, and before it is used; and the code of a condition draws its count once, and not for
each card. -/
theorem drawnOnce_of_reachable (hs : s.Reachable) :
    (∀ (effect : Effect) (code : EffectCode) (t : Storage),
        (effect.compile setting trigger).run s = (.ok code, t) →
        effect.DrawnOnce setting trigger s code.body) ∧
      ∀ (rule : RuleId) (c : Condition), ∃ e t,
        (c.code setting rule trigger).run s = (.ok e, t) ∧ c.DrawnOnce trigger s e :=
  ⟨fun _ _ _ hrun => (Effect.writes_of_run_compile hs hrun).drawnOnce,
    fun rule c => ⟨_, _, c.run_code setting rule trigger hs,
      c.drawnOnce_written setting rule trigger s⟩⟩

/-- A change of the number of hands by a random number. -/
def randomHands : Effect := { id := ⟨"hands"⟩, kind := .editHand { value := .text "RANGE:2|3" } }

/-- At least a random number of hearts is played. -/
def randomHearts : Condition where
  subject := .played
  test := { choice := .named "Hearts", quantifier := .atLeast, count := some (.text "RANGE:1|2") }

/-- A joker that changes the number of hands by a random number, if enough hearts are played. -/
def luckyHearts : Joker where
  id := ⟨"joker"⟩
  key := ⟨"lucky_hearts"⟩
  rules :=
    [{ id := ⟨"rule"⟩, groups := [{ conditions := [randomHearts] }], effects := [randomHands] }]

/-- `luckyHearts` draws one number for its effect, and another one behind the loop over cards. -/
theorem drawnOnce_luckyHearts :
    (∃ code t, (randomHands.compile ⟨luckyHearts, {}⟩ .handPlayed).run {} = (.ok code, t) ∧
      code.body.randomCalls.length = 1) ∧
    ∃ e t, (randomHearts.code ⟨luckyHearts, {}⟩ ⟨"rule"⟩ .handPlayed).run {} = (.ok e, t) ∧
      (randomOf e.draws).length = 1 ∧ e.loopDraws = [] := by
  have hempty : Storage.Reachable {} := .empty
  obtain ⟨heffects, hconditions⟩ := drawnOnce_of_reachable hempty
  constructor
  · have hshape : randomHands.kind.hasShape Trigger.handPlayed.triggerClass = true := rfl
    obtain ⟨code, t, hrun, -⟩ := Effect.run_compile_of_hasShape ⟨luckyHearts, {}⟩ hshape hempty
    have honce := heffects _ _ _ hrun
    exact ⟨code, t, hrun, honce.range ⟨_, _, _, rfl, Effect.standsFor_draw_iff.mpr rfl⟩⟩
  · obtain ⟨e, t, hrun, honce⟩ := hconditions ⟨"rule"⟩ randomHearts
    exact ⟨e, t, hrun, honce.range ⟨rfl, rfl, _, _, Effect.standsFor_draw_iff.mpr rfl⟩,
      honce.outside⟩

end Rules

end JokerScript
