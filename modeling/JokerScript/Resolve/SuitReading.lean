import JokerScript.Joker.Basic
import JokerScript.Lua.Syntax

/-!
# Reading Suits

## Main definitions

* `SuitReading`, `SuitReading.ofChoice` — what a choice of suits compares a card with.
* `SuitReading.check` — the comparison.
-/

namespace JokerScript

/-- What a card is compared with. -/
inductive SuitReading where
  /-- The suit that an expression reads at run time. -/
  | stored (e : Lua.Expr)
  /-- Fixed suits; none of them matches nothing. -/
  | fixed (suits : List Suit)

namespace SuitReading

open Lua

/-- The suit of the card that the game keeps for a suit variable. -/
def storedSuit (name : String) : Expr :=
  .path ("G.GAME.current_round." ++ name ++ "_card.suit")

/-- What a choice means for a joker. A suit variable of the joker wins over a suit of the
same name, and an unknown name matches nothing. -/
def ofChoice (joker : Joker) : SuitChoice → SuitReading
  | .coloured colour => fixed colour.suits
  | .named name =>
    if joker.hasSuitVariable name then
      stored (storedSuit name)
    else
      fixed (Suit.ofName? name).toList

/-- The question whether a card has a suit. -/
def isSuit (card suit : Expr) : Expr := .method card "is_suit" [suit]

/-- The question whether a card matches. -/
def check (card : Expr) : SuitReading → Expr
  | stored e => isSuit card e
  | fixed suits => .anyOf (suits.map fun suit => isSuit card (.str suit.name))

end SuitReading

end JokerScript
