import JokerScript.Tag

/-!
# Hook Categories

A hook replaces a function of the game. Each category of hooks replaces one function,
however many jokers ask for it.

## Main definitions

* `HookCategory` — the categories.
-/

namespace JokerScript

/-- A function of the game that jokers may change. -/
inductive HookCategory
  /-- The cost of cards in the shop. -/
  | discountItems
  /-- The suit that a card counts as. -/
  | combineSuits
deriving DecidableEq, Repr

instance : Tagged HookCategory where
  all := [.discountItems, .combineSuits]
  tag
    | .discountItems => "discount_items"
    | .combineSuits => "combine_suits"
  find_tag := by intro a; cases a <;> rfl

end JokerScript
