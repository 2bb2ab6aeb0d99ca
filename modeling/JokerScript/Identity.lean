/-!
# Identifiers

Jokers, rules and effects carry stable ids chosen by the author's editor. Nothing here
invents an id; names are only derived from them.

## Main definitions

* `JokerId`, `RuleId`, `EffectId`, `JokerKey` — the identifiers.
* `shortId` — the part of an id that goes into the names of random streams.
-/

namespace JokerScript

/-- How many characters of an id go into the name of a random stream. -/
def shortIdLength : Nat := 8

/-- The first characters of an id; a shorter id is taken whole. -/
def shortId (id : String) : String := String.ofList (id.toList.take shortIdLength)

/-- The id of a joker. -/
structure JokerId where
  text : String
deriving DecidableEq, Repr

/-- The id of a rule. -/
structure RuleId where
  text : String
deriving DecidableEq, Repr

/-- The id of an effect. -/
structure EffectId where
  text : String
deriving DecidableEq, Repr

/-- The key of a joker inside its mod. -/
structure JokerKey where
  text : String
deriving DecidableEq, Repr

namespace JokerId

/-- How a message names the joker. -/
def label (id : JokerId) : String := "Joker(" ++ id.text ++ ")"

end JokerId

namespace RuleId

/-- How a message names the rule. -/
def label (id : RuleId) : String := "Rule(" ++ id.text ++ ")"

/-- The part of the id that goes into the names of random streams. -/
def short (id : RuleId) : String := shortId id.text

end RuleId

namespace EffectId

/-- How a message names the effect. -/
def label (id : EffectId) : String := "Effect(" ++ id.text ++ ")"

/-- The part of the id that goes into the names of random streams. -/
def short (id : EffectId) : String := shortId id.text

end EffectId

namespace JokerKey

/-- The key under which the game knows the joker, given the prefix of its mod. -/
def runtimeKey (modPrefix : String) (key : JokerKey) : String :=
  "j_" ++ modPrefix ++ "_" ++ key.text

end JokerKey

end JokerScript
