import JokerScript.Number.Text
import JokerScript.Text.Blank

/-!
# Authored Quantities

A quantity of an authored joker is a number, or a text that tells where the number comes
from: a variable of the game, a range to draw from, a variable of the joker, or a
numeral. What a text means is settled when the quantity is resolved.

## Main definitions

* `Quantity` — a number or a text.
* `Quantity.range`, `Quantity.gameVar`, `Quantity.named` — texts with a meaning.
-/

namespace JokerScript

/-- A quantity as authored. -/
inductive Quantity
  | number (n : Number)
  | text (s : String)
deriving DecidableEq, Repr

namespace Quantity

instance : Inhabited Quantity := ⟨number (Number.zero false)⟩

/-- What leads a reference to a variable of the game. -/
def gameVarLead : String := "GAMEVAR:"

/-- What leads a range. -/
def rangeLead : String := "RANGE:"

/-- A draw between two bounds. -/
def range (min max : Number) : Quantity := text (rangeLead ++ min.text ++ "|" ++ max.text)

/-- A variable of the game. -/
def gameVar (token : String) : Quantity := text (gameVarLead ++ token)

/-- A variable of the joker. -/
def named (name : String) : Quantity := text name

/-- The number itself, or the number that the text is a numeral of. -/
def asNumber? : Quantity → Option Number
  | number n => some n
  | text s => Number.readChars? (trimChars s.toList)

/-- The quantity as it stands in a message. -/
def display : Quantity → String
  | number n => n.text
  | text s => s

end Quantity

end JokerScript
