import JokerScript.Hook.Patch

/-!
# The Suit of Cards

The function that asks whether a card has a suit lets the game answer. If the answer is
no, a held joker may turn it into yes for the two suits that it combines.

## Main definitions

* `SuitCheck.template` — the replacement.
* `SuitCheck.combine` — one pair of suits.
-/

namespace JokerScript

open Lua

namespace SuitCheck

/-- The local variable with the answer. -/
def answer : String := "ret"

/-- Is this suit asked for, of a card of that suit? -/
def isPair (asked actual : Suit) : Expr :=
  ((Expr.path "suit").equals (.str asked.name)).and
    ((Expr.path "self.base.suit").equals (.str actual.name))

/-- The change of one pair of suits. The answer about a debuffed card is neither true nor
false, and stays. -/
def combine (params : SuitPair) : Block :=
  let swapped := (isPair params.first params.second).or (isPair params.second params.first)
  [.ifThen (((Expr.path answer).equals (.bool false)).and swapped)
    [.set answer (.bool true)]]

/-- The parameters of the function. -/
def params : List String := ["suit", "bypass_debuff", "flush_calc"]

/-- The replacement of the function that asks for the suit of a card. -/
def template : Template where
  category := .combineSuits
  target := "Card:is_suit"
  params := params
  callThrough reference := [.letLocal answer (Template.referenceCall params reference)]
  transform
    | .suitPair params => .ok (combine params)
    | .discount _ => .error (.hookParamsMismatch .combineSuits .discountItems)
  epilogue := [.returning (.path answer)]

end SuitCheck

end JokerScript
