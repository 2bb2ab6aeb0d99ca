import JokerScript.Tag
import JokerScript.Text.Blank

/-!
# Suits

## Main definitions

* `Suit`, `Suit.ofName?` — the four suits, and a suit by its name in any letter case.
* `SuitColour`, `SuitColour.suits` — the red and the black suits.
* `SuitChoice` — the suits that a condition looks for.
-/

namespace JokerScript

/-- A suit of playing cards. -/
inductive Suit
  | hearts
  | diamonds
  | spades
  | clubs
deriving DecidableEq, Repr

instance : Tagged Suit where
  all := [.hearts, .diamonds, .spades, .clubs]
  tag
    | .hearts => "Hearts"
    | .diamonds => "Diamonds"
    | .spades => "Spades"
    | .clubs => "Clubs"
  find_tag := by intro a; cases a <;> rfl

/-- The text with its ASCII letters in lower case. -/
def asciiLower (s : String) : String := s.map Char.toLower

namespace Suit

/-- The name by which the game knows the suit. -/
def name (s : Suit) : String := Tagged.tag s

/-- The suit of a name; blanks around it and the case of its letters do not matter. -/
def ofName? (text : String) : Option Suit :=
  (Tagged.all : List Suit).find? fun s => asciiLower s.name == asciiLower (trim text)

end Suit

/-- A colour of suits. -/
inductive SuitColour
  | red
  | black
deriving DecidableEq, Repr

instance : Tagged SuitColour where
  all := [.red, .black]
  tag
    | .red => "red"
    | .black => "black"
  find_tag := by intro a; cases a <;> rfl

namespace SuitColour

/-- The suits of the colour. -/
def suits : SuitColour → List Suit
  | red => [.hearts, .diamonds]
  | black => [.spades, .clubs]

end SuitColour

/-- The suits that a condition looks for. -/
inductive SuitChoice
  /-- A suit by name, or the suit variable of the joker that has this name. -/
  | named (name : String)
  | coloured (colour : SuitColour)
deriving DecidableEq, Repr

end JokerScript
