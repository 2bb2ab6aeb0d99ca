import JokerScript.Code.Joker
import JokerScript.Draft.Validate

/-!
# The Code of Mods

The jokers of a mod are compiled in order, and at the end their hook requests become the
replaced functions. A compilation fails only if a joker has two numeric variables of one
name, or if the replaced functions cannot be made.

## Main definitions

* `ModCode` — the code of a mod.
* `compile` — from the jokers of a mod to its code.
* `compileDrafts` — the same for drafts. The rules that are refused as drafts are reported
  before those that fail later.
-/

namespace JokerScript

/-- The code of all jokers of a mod. -/
structure ModCode where
  jokers : List JokerCode
  /-- The replaced functions of the game. -/
  hooks : List Patch

namespace ModCode

/-- The rules that were given up, joker by joker. -/
def failures (c : ModCode) : List RuleFailure := c.jokers.flatMap (·.failures)

end ModCode

/-- Compile jokers in order, each with the failures that it already has. -/
def compileJokers (naming : Naming) (ledger : HookLedger) :
    List (Joker × List RuleFailure) → Except CompileError (List JokerCode × HookLedger)
  | [] => .ok ([], ledger)
  | (joker, failures) :: rest => do
    let (code, ledger) ← joker.compile naming ledger failures
    let (codes, ledger) ← compileJokers naming ledger rest
    return (code :: codes, ledger)

/-- Compile jokers and merge their hook requests. -/
def compileWith (naming : Naming) (jokers : List (Joker × List RuleFailure)) :
    Except CompileError ModCode := do
  let (codes, ledger) ← compileJokers naming .standard jokers
  let hooks ← ledger.patches naming
  return { jokers := codes, hooks }

/-- Compile the jokers of a mod. -/
def compile (naming : Naming) (jokers : List Joker) : Except CompileError ModCode :=
  compileWith naming (jokers.map fun joker => (joker, []))

/-- Validate and compile the drafts of a mod. -/
def compileDrafts (naming : Naming) (drafts : List DraftJoker) :
    Except CompileError ModCode :=
  compileWith naming (drafts.map DraftJoker.validate)

end JokerScript
