import JokerScript.Draft.Basic
import JokerScript.Error
import JokerScript.Joker.Quantity
import JokerScript.Json.Print
import JokerScript.Number.Rounding

/-!
# Reading Parameters

A parameter counts as given if it is a text that is not empty. Quantities may be numbers
too; any other JSON value is kept as its text, which names no source of a number.

## Main definitions

* `Params.text?`, `Params.choice?` — texts.
* `Params.quantity?`, `Params.amount` — numbers.
* `Params.lenient` — a tag that has a default for all it does not know.
-/

namespace JokerScript

namespace Params

/-- The text that is given for a parameter. -/
def text? (params : Params) (name : String) : Option String :=
  match params.lookup name with
  | some (.str s) => if s.isEmpty then none else some s
  | _ => none

/-- The text that is given for a parameter, where `none` is no choice. -/
def choice? (params : Params) (name : String) : Option String :=
  (params.text? name).filter fun s => s != "none"

/-- The quantity that a JSON value stands for. The empty text and `null` stand for
none. -/
def quantityOf? : Json → Option Quantity
  | .null => none
  | .int i => some (.number (Number.ofInt i))
  | .float n => some (.number n)
  | .str s => if s.isEmpty then none else some (.text s)
  | j => some (.text j.compact)

/-- The quantity that is given for a parameter. -/
def quantity? (params : Params) (name : String) : Option Quantity :=
  (params.lookup name).bind quantityOf?

/-- The quantity that is given for a parameter, or one. -/
def quantityOrOne (params : Params) (name : String) : Quantity :=
  (params.quantity? name).getD (.number Number.one)

/-- The number that is given for a parameter. Zero counts as one, and so does what is no
number. -/
def amount (params : Params) (name : String) : Number :=
  match (params.quantity? name).bind Quantity.asNumber? with
  | some n => if n.isZero then Number.one else n
  | none => Number.one

/-- The value of the tag that is given for a parameter, or the default if none is given
or the tag is unknown. -/
def lenient {α : Type} [Tagged α] (params : Params) (name : String) (default : α) : α :=
  ((params.text? name).bind Tagged.ofTag?).getD default

end Params

end JokerScript
