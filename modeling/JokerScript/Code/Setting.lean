import JokerScript.Config
import JokerScript.Joker.Basic

/-!
# The Setting of Generated Code

## Main definitions

* `Setting` — the joker that code belongs to, and the naming it is made under.
-/

namespace JokerScript

/-- What the code of a joker may refer to. -/
structure Setting where
  joker : Joker
  naming : Naming
deriving DecidableEq, Repr

end JokerScript
