import JokerScript.Code.Condition
import JokerScript.Hook.Request

/-!
# The Code of Effects

The class of a trigger decides where the code of an effect runs. Inside scoring, it is a
block before the return table, and the table shows its message. Outside, it is the body
of a callback and shows its message itself. Without an activation point it is a pair of
blocks, for when the joker is gained and when it is lost.

## Main definitions

* `Colour`, `EffectBlocks`, `EffectBody` — the code of an effect.
* `EffectBody.triggered` — a change with a message, for either class of triggers.
* `BoundQuantity` — a quantity that is drawn at most once.
-/

namespace JokerScript

open Lua

/-! ### Blocks -/

/-- The colour of a status text. -/
inductive Colour
  | green
  | red
  | blue
deriving DecidableEq, Repr

namespace Colour

/-- Where the game keeps the colour. -/
def path : Colour → String
  | green => "G.C.GREEN"
  | red => "G.C.RED"
  | blue => "G.C.BLUE"

end Colour

/-- The blocks of an effect, by where they run. -/
inductive EffectBlocks where
  /-- The body of a callback; its last statement `return true` is added later. -/
  | callback (body : Block)
  /-- The statements before the return table. -/
  | beforeReturn (body : Block)
  /-- What is done when the joker is gained, and what when it is lost. -/
  | whileHeld (gain loss : Block)

namespace EffectBlocks

/-- The class of triggers that the blocks are for. -/
def triggerClass : EffectBlocks → TriggerClass
  | callback _ => .immediate
  | beforeReturn _ => .scoring
  | whileHeld .. => .passive

/-- The blocks in order. -/
def toList : EffectBlocks → List Block
  | callback body => [body]
  | beforeReturn body => [body]
  | whileHeld gain loss => [gain, loss]

end EffectBlocks

/-- The code of an effect. -/
structure EffectBody where
  blocks : EffectBlocks
  /-- The message of the return table. -/
  message : Option Expr := none
  colour : Option Colour := none
  /-- The change to a function of the game that the effect asks for. -/
  hook : Option HookRequest := none

/-! ### Pieces -/

/-- Show a text at the card. -/
def statusText (message : Expr) (colour : Colour) : Stmt :=
  .call "card_eval_status_text"
    [(Expr.path "context.blueprint_card").or (.path "card"), .str "extra", .nil, .nil, .nil,
     .record [("message", message), ("colour", .path colour.path)]]

/-- Schedule an event. -/
def scheduled (body : Block) : Stmt :=
  .run (.method (.path "G.E_MANAGER") "add_event"
    [.apply "Event" [.record [("func", .thunk body)]]])

/-- The message of the author, or else the usual one. -/
def Effect.messageOr (effect : Effect) (usual : Expr) : Expr :=
  match effect.customMessage with
  | some text => .str text
  | none => usual

/-- A number between two texts. -/
def amountMessage (before : String) (value : Expr) (after : String) : Expr :=
  .concat [.str before, .apply "tostring" [value], .str after]

/-- The error of an effect that has no code for triggers of a class. -/
def Effect.missingShape (effect : Effect) (triggerClass : TriggerClass) : CompileError :=
  .missingTriggerClassShape effect.kind.tag triggerClass

/-- The code of a change with a message: the return table shows the message inside
scoring, and outside the block shows it before the change. -/
def EffectBody.triggered (triggerClass : TriggerClass) (setup : Block) (message : Expr)
    (colour : Colour) (change : Block) : EffectBody :=
  match triggerClass with
  | .scoring =>
    { blocks := .beforeReturn (setup ++ change), message := some message, colour := some colour }
  | .immediate | .passive =>
    { blocks := .callback (setup ++ [statusText message colour] ++ change),
      colour := some colour }

/-! ### Quantities -/

/-- A quantity of an effect, ready for use any number of times. -/
structure BoundQuantity where
  /-- The claimed name. -/
  slot : String
  /-- The statements that come first: they draw a random number once. -/
  setup : Block
  value : Expr

/-- Claim a name and resolve a quantity under it. A random draw is bound to a local
variable, so that all uses see one number. -/
def bindQuantity (setting : Setting) (base : String) (suffixes : List String) (q : Quantity)
    (owner : EffectId) : Resolver BoundQuantity := do
  let slot ← Resolver.claim base suffixes
  let resolved ← resolve setting.naming (.declared slot owner.text) q
  if resolved.isStable then
    return { slot, setup := [], value := resolved.expr }
  else
    let drawn := slot ++ "_value"
    return { slot, setup := [.letLocal drawn resolved.expr], value := .path drawn }

end JokerScript
