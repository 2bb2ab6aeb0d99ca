import JokerScript.Identity
import JokerScript.Json.Decode

/-!
# Configuration

A mod is compiled under one configuration. Its naming decides how generated code refers to
the mod, and its indentation decides how the text of the code is laid out. Code is made
from the naming alone.

## Main definitions

* `Naming`, `Naming.jokerKey`, `Naming.rarityKey`, `Naming.seed` — the names in generated
  code.
* `Config` — naming and indentation, with their defaults.
-/

namespace JokerScript

/-- How generated code names what belongs to a mod. -/
structure Naming where
  /-- The name of the mod; it qualifies joker keys and rarities. -/
  modPrefix : String := "mod"
  /-- The leading part of the name of every random stream. -/
  seedPrefix : String := "jf"
deriving DecidableEq, Repr

namespace Naming

/-- The key under which the game knows a joker of the mod. -/
def jokerKey (naming : Naming) (key : JokerKey) : String := key.runtimeKey naming.modPrefix

/-- The key of a rarity that the mod defines. A mod without a name does not qualify it. -/
def rarityKey (naming : Naming) (rarity : String) : String :=
  if naming.modPrefix.isEmpty then rarity else naming.modPrefix ++ "_" ++ rarity

/-- The name of the random stream of `name` for the entity whose id is `owner`. -/
def seed (naming : Naming) (name owner : String) : String :=
  naming.seedPrefix ++ "_" ++ name ++ "_" ++ shortId owner

end Naming

/-- The configuration of a compiler. -/
structure Config extends Naming where
  /-- The blanks of one level of indentation. -/
  indentWidth : Nat := 4
deriving DecidableEq, Repr

namespace Config

/-- The JSON form. -/
def toJson (config : Config) : Json :=
  .obj [("mod_prefix", .str config.modPrefix), ("seed_prefix", .str config.seedPrefix),
    ("indent_width", .int config.indentWidth)]

/-- The configuration of a JSON form; missing members take their defaults. -/
def ofJson? (j : Json) : Option Config := do
  let members ← j.members?
  let default : Config := {}
  let modPrefix ← Json.withDefault members "mod_prefix" default.modPrefix Json.string?
  let seedPrefix ← Json.withDefault members "seed_prefix" default.seedPrefix Json.string?
  let indentWidth ← Json.withDefault members "indent_width" default.indentWidth Json.nat?
  some { modPrefix, seedPrefix, indentWidth }

end Config

end JokerScript
