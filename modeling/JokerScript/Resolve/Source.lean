import JokerScript.Lua.Identifier
import JokerScript.Resolve.GameState

/-!
# Sources of Values

A quantity names one source that its number comes from. A text is tried as a variable of
the game, then as a range, then as a name, and then as a numeral, so a name is never
read as the numeral that it spells.

## Main definitions

* `Source` — the sources.
* `Source.ofQuantity` — the source that a quantity names.
-/

namespace JokerScript

/-- Where the number of a quantity comes from. -/
inductive Source
  | gameVar (v : GameVar)
  | range (min max : Number)
  | named (name : String)
  | number (n : Number)
  /-- No source at all. -/
  | unresolved
deriving DecidableEq, Repr

namespace Source

/-- The least value of a range that does not tell its own. -/
def defaultMin : Number := Number.one

/-- The greatest value of a range that does not tell its own: five. -/
def defaultMax : Number := Number.five

/-- The range that a text holds after its lead: two bounds between a bar. A missing or
malformed bound takes its default. -/
def ofBounds (cs : List Char) : Source :=
  let (min, others) := splitAt '|' cs
  range (numeralOr defaultMin (some min)) (numeralOr defaultMax others[0]?)

/-- A finite number is its own source. -/
def ofNumber (n : Number) : Source := if n.isFinite then number n else unresolved

/-- The source that a text without blanks around it names. -/
def ofChars (cs : List Char) : Source :=
  match GameVar.ofChars? cs with
  | some v => gameVar v
  | none =>
    match afterLead? Quantity.rangeLead.toList cs with
    | some bounds => ofBounds bounds
    | none =>
      if Lua.isIdentifier (String.ofList cs) then
        named (String.ofList cs)
      else
        match Number.readChars? cs with
        | some n => ofNumber n
        | none => unresolved

/-- The source that a quantity names. -/
def ofQuantity : Quantity → Source
  | .number n => ofNumber n
  | .text s => ofChars (trimChars s.toList)

end Source

end JokerScript
