import Mathlib.Tactic.Linarith
import JokerScript.Config
import JokerScript.Joker.Effect
import JokerScript.Proofs.Lua.Value

/-!
# Discounts

What a card costs is told here without the generated code: the discounts whose owner is held and
whose target covers the card apply one after the other, in the order of the requests, to the cost
that the game has set. Discounts of amounts that are not negative never raise a cost, and never
make it negative.

## Main definitions

* `PricedCard` — what prices depend on.
* `Discount.apply`, `PricedCard.costAfter`, `PricedCard.sellValue` — the prices.

## Main results

* `PricedCard.costAfter_between` — bounds of the cost.
-/

namespace JokerScript

open Lua

/-! ### Discounts -/

/-- The sets of cards that a target covers. -/
def DiscountTarget.sets : DiscountTarget → List String
  | planet => ["Planet"]
  | tarot => ["Tarot"]
  | spectral => ["Spectral"]
  | standard => ["Enhanced"]
  | jokers => ["Joker"]
  | vouchers => ["Voucher"]
  | allConsumables => ["Tarot", "Planet", "Spectral"]
  | allCards => ["Joker", "Tarot", "Planet", "Spectral", "Enhanced", "Booster"]
  | allShopItems => ["Joker", "Tarot", "Planet", "Spectral", "Enhanced", "Booster", "Voucher"]

/-- The kind of boosters that a target covers beside its sets. -/
def DiscountTarget.boosterKind? : DiscountTarget → Option String
  | planet => some "Celestial"
  | tarot => some "Arcana"
  | spectral => some "Spectral"
  | standard => some "Standard"
  | _ => none

namespace Discount

/-- The cost after a discount. -/
def apply (discount : Discount) (cost : ExactNumber) : ExactNumber :=
  let amount := discount.amount.literalValue
  match discount.method with
  | .makeFree => .finite 0
  | .flatReduction => (ExactNumber.finite 0).max (cost.sub amount)
  | .percentageReduction =>
    (ExactNumber.finite 0).max
      (cost.mul ((ExactNumber.finite 1).sub (amount.div (.finite 100)))).floor

end Discount

namespace Lua.ExactNumber

/-- What is taken off a number does not raise it. -/
theorem sub_le {a b : ExactNumber} (ha : (finite 0).le a = true) (hb : (finite 0).le b = true)
    (hpos : (finite 0).lt (a.sub b) = true) : (a.sub b).le a = true := by
  rcases zero_le_iff.mp ha with ⟨q, hq, rfl⟩ | rfl
  · rcases zero_le_iff.mp hb with ⟨r, hr, rfl⟩ | rfl
    · rw [finite_sub, finite_le]
      linarith
    · cases hpos
  · exact le_infinite hpos

/-- What is taken off a number in percent does not raise it, nor does rounding down. -/
theorem floor_mul_le {a b : ExactNumber} (ha : (finite 0).le a = true)
    (hb : (finite 0).le b = true)
    (hpos : (finite 0).lt (a.mul ((finite 1).sub (b.div (finite 100)))).floor = true) :
    (a.mul ((finite 1).sub (b.div (finite 100)))).floor.le a = true := by
  rcases zero_le_iff.mp ha with ⟨q, hq, rfl⟩ | rfl
  · rcases zero_le_iff.mp hb with ⟨r, hr, rfl⟩ | rfl
    · have hpart : 0 ≤ q * (r / 100) := by positivity
      rw [finite_div r (by norm_num), finite_sub, finite_mul, floor, finite_le]
      calc (⌊q * (1 - r / 100)⌋ : ℚ) ≤ q * (1 - r / 100) := Int.floor_le _
        _ ≤ q := by linarith
    · -- An infinite amount leaves nothing above zero.
      have hfactor : (finite 1).sub ((infinite false).div (finite 100)) = infinite true := by
        simp [div, sub, neg, add]
      rw [hfactor, mul] at hpos
      split at hpos
      · cases hpos
      · have hneg : q < 0 := by simpa [lt, floor] using hpos
        exact absurd hneg hq.not_gt
  · exact le_infinite hpos

end Lua.ExactNumber

/-- **A discount** of an amount that is not negative leaves a cost between zero and what it
was. -/
theorem Discount.apply_between {discount : Discount} {cost : ExactNumber}
    (hamount : (ExactNumber.finite 0).le discount.amount.literalValue = true)
    (hcost : (ExactNumber.finite 0).le cost = true) :
    (ExactNumber.finite 0).le (discount.apply cost) = true ∧
      (discount.apply cost).le cost = true := by
  rw [apply]
  cases discount.method with
  | makeFree => exact ⟨(ExactNumber.finite_le 0 0).mpr le_rfl, hcost⟩
  | flatReduction => exact ExactNumber.max_zero_between hcost (ExactNumber.sub_le hcost hamount)
  | percentageReduction =>
      exact ExactNumber.max_zero_between hcost (ExactNumber.floor_mul_le hcost hamount)

/-! ### Cards -/

/-- What the prices of a card depend on, beside the cost that the game sets. -/
structure PricedCard where
  /-- The set of the card. -/
  set : Value
  /-- The kind, which only boosters are asked for. -/
  kind : Value := .nil
  /-- What is added to the value of the card when it is sold. -/
  extra : Option ExactNumber := none

namespace PricedCard

/-- Does the target cover the card? -/
def isCoveredBy (card : PricedCard) (target : DiscountTarget) : Bool :=
  (target.sets.any fun name => card.set.same (.str name)) ||
    target.boosterKind?.any fun kind =>
      card.set.same (.str "Booster") && card.kind.same (.str kind)

/-- The cost after discounts: those of held owners that cover the card apply in order. -/
def costAfter (card : PricedCard) (naming : Naming) (held : String → Bool)
    (discounts : List (JokerKey × Discount)) (cost : ExactNumber) : ExactNumber :=
  (discounts.filter fun p =>
    held (naming.jokerKey p.1) && card.isCoveredBy p.2.target).foldl
      (fun cost p => p.2.apply cost) cost

/-- The discounts that do not cover the card leave the cost as it is. -/
theorem costAfter_eq_foldl (card : PricedCard) (naming : Naming) (held : String → Bool)
    (discounts : List (JokerKey × Discount)) (cost : ExactNumber) :
    card.costAfter naming held discounts cost =
      (discounts.filter fun p => held (naming.jokerKey p.1)).foldl
        (fun cost p => if card.isCoveredBy p.2.target then p.2.apply cost else cost) cost := by
  rw [costAfter, ← List.foldl_filter, List.filter_filter]
  simp only [Bool.and_comm]

/-- The price at which a card of a cost is sold. -/
def sellValue (card : PricedCard) (cost : ExactNumber) : ExactNumber :=
  ((ExactNumber.finite 1).max (cost.div (.finite 2)).floor).add (card.extra.getD (.finite 0))

/-- The cost after discounts is between zero and what it was. -/
theorem costAfter_between (card : PricedCard) (naming : Naming) (held : String → Bool)
    {discounts : List (JokerKey × Discount)} {cost : ExactNumber}
    (hamounts : ∀ p ∈ discounts, (ExactNumber.finite 0).le p.2.amount.literalValue = true)
    (hcost : (ExactNumber.finite 0).le cost = true) :
    (ExactNumber.finite 0).le (card.costAfter naming held discounts cost) = true ∧
      (card.costAfter naming held discounts cost).le cost = true := by
  -- Each discount keeps the cost between zero and the first cost, not just below the last one.
  have hfold : ∀ (ps : List (JokerKey × Discount)) (c : ExactNumber), ps ⊆ discounts →
      (ExactNumber.finite 0).le c = true ∧ c.le cost = true →
      (ExactNumber.finite 0).le (ps.foldl (fun cost p => p.2.apply cost) c) = true ∧
        (ps.foldl (fun cost p => p.2.apply cost) c).le cost = true := by
    intro ps
    induction ps with
    | nil => exact fun _ _ hc => hc
    | cons p ps ih =>
        intro c hps hc
        rw [List.cons_subset] at hps
        have hnext := Discount.apply_between (hamounts p hps.1) hc.1
        exact ih _ hps.2 ⟨hnext.1, ExactNumber.le_trans hnext.2 hc.2⟩
  have hself : cost.le cost = true := by
    rcases ExactNumber.zero_le_iff.mp hcost with ⟨q, -, rfl⟩ | rfl
    · exact (ExactNumber.finite_le q q).mpr le_rfl
    · rfl
  exact hfold _ _ (List.filter_subset_self _) ⟨hcost, hself⟩

end PricedCard

end JokerScript
