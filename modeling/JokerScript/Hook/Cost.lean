import JokerScript.Hook.Patch

/-!
# The Cost of Cards

The function that sets the cost of a card lets the game compute it, and then applies the
discounts of the jokers that are held, in order. A cost never becomes negative, and the
sell value follows it.

## Main definitions

* `SetCost.template` — the replacement.
* `SetCost.covers`, `SetCost.discountedCost` — one discount.
-/

namespace JokerScript

open Lua

namespace SetCost

/-- Is the card of this set? -/
def isSet (name : String) : Expr := (Expr.path "self.ability.set").equals (.str name)

/-- Is the card a booster of this kind? -/
def isBoosterOf (kind : String) : Expr :=
  (isSet "Booster").and ((Expr.path "self.config.center.kind").equals (.str kind))

/-- Is the card of one of these sets? -/
def isOneOf (names : List String) : Expr := .anyOf (names.map isSet)

/-- Does the discount cover the card? -/
def covers : DiscountTarget → Expr
  | .planet => (isSet "Planet").or (isBoosterOf "Celestial")
  | .tarot => (isSet "Tarot").or (isBoosterOf "Arcana")
  | .spectral => (isSet "Spectral").or (isBoosterOf "Spectral")
  | .standard => (isSet "Enhanced").or (isBoosterOf "Standard")
  | .jokers => isSet "Joker"
  | .vouchers => isSet "Voucher"
  | .allConsumables => isOneOf ["Tarot", "Planet", "Spectral"]
  | .allCards => isOneOf ["Joker", "Tarot", "Planet", "Spectral", "Enhanced", "Booster"]
  | .allShopItems =>
    isOneOf ["Joker", "Tarot", "Planet", "Spectral", "Enhanced", "Booster", "Voucher"]

/-- The cost of the card. -/
def cost : Expr := .path "self.cost"

/-- The number, or zero if it is negative. -/
def atLeastZero (e : Expr) : Expr := .apply "math.max" [.zero, e]

/-- The cost after a discount. -/
def discountedCost (method : DiscountMethod) (amount : Number) : Expr :=
  match method with
  | .makeFree => .zero
  | .flatReduction => atLeastZero (cost.minus (.number amount))
  | .percentageReduction =>
    let factor := Expr.one.minus ((Expr.number amount).dividedBy (.number Number.hundred))
    atLeastZero (.apply "math.floor" [cost.times factor])

/-- The change of one discount. -/
def discount (params : Discount) : Block :=
  [.ifThen (covers params.target)
    [.set "self.cost" (discountedCost params.method params.amount)]]

/-- The sell value follows the cost. -/
def epilogue : Block :=
  let half : Expr := .apply "math.floor" [cost.dividedBy (.number Number.two)]
  [.set "self.sell_cost"
    ((Expr.apply "math.max" [.one, half]).plus
      ((Expr.path "self.ability.extra_value").or .zero)),
   .set "self.sell_cost_label"
    ((((Expr.path "self.facing").equals (.str "back")).and (.str "?")).or
      (.path "self.sell_cost"))]

/-- The replacement of the function that sets the cost of a card. -/
def template : Template where
  category := .discountItems
  target := "Card:set_cost"
  transform
    | .discount params => .ok (discount params)
    | .suitPair _ => .error (.hookParamsMismatch .discountItems .combineSuits)
  epilogue := epilogue

end SetCost

end JokerScript
