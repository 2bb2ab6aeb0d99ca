import JokerScript.Joker.Quantity
import JokerScript.Lua.Syntax
import JokerScript.Text.Pieces

/-!
# Reading the State of the Game

A quantity may be a variable of the game, named by a token and scaled by an optional
factor and offset: `GAMEVAR:ante|2|-1` is twice the ante less one.

## Main definitions

* `GameState.readings`, `GameState.expr?` — the tokens and how each is read.
* `GameVar`, `GameVar.ofChars?`, `GameVar.expr?` — scaled references.
-/

namespace JokerScript

namespace GameState

open Lua

/-- How a token reads the state of the game. -/
inductive Reading
  /-- A number at a path. -/
  | field (path : String)
  /-- The length of the list at a path. -/
  | count (path : String)
deriving DecidableEq, Repr

/-- The tokens, with the reading of each. -/
def readings : List (String × Reading) :=
  [("hand_size", .field "G.hand.config.card_limit"),
    ("remaining_hands", .field "G.GAME.current_round.hands_left"),
    ("remaining_discards", .field "G.GAME.current_round.discards_left"),
    ("hands_played", .field "G.GAME.current_round.hands_played"),
    ("money", .field "G.GAME.dollars"),
    ("ante", .field "G.GAME.round_resets.ante"),
    ("round", .field "G.GAME.round"),
    ("joker_slots", .field "G.jokers.config.card_limit"),
    ("consumable_slots", .field "G.consumeables.config.card_limit"),
    ("joker_count", .count "G.jokers.cards"),
    ("consumable_count", .count "G.consumeables.cards"),
    ("deck_size", .count "G.playing_cards"),
    ("cards_in_deck", .count "G.deck.cards"),
    ("cards_in_hand", .count "G.hand.cards")]

/-- The expression of a reading. -/
def Reading.expr : Reading → Expr
  | field path => .path path
  | count path => .length (.path path)

/-- The expression that reads a token; an unknown token has none. -/
def expr? (token : String) : Option Expr := (readings.lookup token).map Reading.expr

end GameState

/-- A scaled reference to a variable of the game. -/
structure GameVar where
  token : String
  multiplier : Number
  offset : Number
deriving DecidableEq, Repr

/-- The number that a piece of a text holds, or the default. Blanks around the numeral do
not matter. -/
def numeralOr (default : Number) (piece : Option (List Char)) : Number :=
  (piece.bind fun cs => Number.readChars? (trimChars cs)).getD default

namespace GameVar

open Lua

/-- The reference that a text holds after its lead: a token, then optionally a factor and
an offset, between bars. A missing or malformed factor is one, and such an offset zero. -/
def ofChars? (cs : List Char) : Option GameVar :=
  (afterLead? Quantity.gameVarLead.toList cs).map fun rest =>
    let (token, scaling) := splitAt '|' rest
    { token := String.ofList (trimChars token)
      multiplier := numeralOr Number.one scaling[0]?
      offset := numeralOr (Number.zero false) scaling[1]? }

/-- An expression times a factor; the factor one is left out. -/
def scaled (base : Expr) (multiplier : Number) : Expr :=
  if multiplier = Number.one then base else base.times (.number multiplier)

/-- An expression plus an offset. The offset zero is left out, and a negative one is
subtracted. -/
def shifted (base : Expr) (offset : Number) : Expr :=
  if offset.isZero then base
  else if offset.isBelowZero then base.minus (.number offset.opposite)
  else base.plus (.number offset)

/-- The expression that reads the variable; an unknown token has none. -/
def expr? (v : GameVar) : Option Expr :=
  (GameState.expr? v.token).map fun base => shifted (scaled base v.multiplier) v.offset

end GameVar

end JokerScript
