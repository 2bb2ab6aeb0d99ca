import JokerScript.Config
import JokerScript.Hook.Request
import JokerScript.Lua.Syntax

/-!
# Replaced Functions

A function of the game is replaced once for all jokers. The new function calls the old
one, makes the change of each owner that is held, and ends in the way of its category. A
template tells what differs between the categories.

## Main definitions

* `Template` — the parts of a replacement, with their usual values.
* `Patch`, `Patch.ofRequests` — the replacement for some requests.
-/

namespace JokerScript

open Lua

/-! ### Templates -/

/-- A call of the saved function with the parameters of the new one. -/
def Template.referenceCall (params : List String) (reference : String) : Expr :=
  .apply reference (.path "self" :: params.map .path)

/-- How one category replaces its function. -/
structure Template where
  category : HookCategory
  /-- The function in method syntax. -/
  target : String
  /-- The parameters after the card itself. -/
  params : List String := []
  /-- The statements that call the saved function, given the name it is saved under. -/
  callThrough : String → Block := fun reference =>
    [.run (Template.referenceCall params reference)]
  /-- The change of one owner. -/
  transform : HookChange → Except CompileError Block
  /-- The statements after all changes. -/
  epilogue : Block := []

/-! ### Replacements -/

/-- The replacement of one function. -/
structure Patch where
  category : HookCategory
  /-- The function in method syntax. -/
  target : String
  /-- The owner of each change, in order. -/
  owners : List JokerKey
  body : Block

/-- The name under which the old function is saved. -/
def referenceName (target : String) : String :=
  asciiLower (target.map fun c => if c = ':' ∨ c = '.' then '_' else c) ++ "_ref"

/-- The path of a function that is given in method syntax. -/
def functionPath (target : String) : String := target.map fun c => if c = ':' then '.' else c

namespace HookRequest

/-- The question whether the owner of a request is held. -/
def isHeld (naming : Naming) (request : HookRequest) : Expr :=
  .apply "next" [.apply "SMODS.find_card" [.str (naming.jokerKey request.owner)]]

/-- The change of a request, behind the question whether its owner is held. -/
def gated (template : Template) (naming : Naming) (request : HookRequest) :
    Except CompileError Stmt := do
  let change ← template.transform request.change
  return .ifThen (request.isHeld naming) change

end HookRequest

namespace Patch

/-- The body of a replacement, given its gated changes. -/
def frame (template : Template) (changes : List Stmt) : Block :=
  let reference := referenceName template.target
  [.letLocal reference (.path (functionPath template.target)),
   .define template.target template.params
    (template.callThrough reference ++ changes ++ template.epilogue)]

/-- The replacement that a template makes for some requests. -/
def ofRequests (template : Template) (naming : Naming) (category : HookCategory)
    (requests : List HookRequest) : Except CompileError Patch := do
  let changes ← requests.mapM (HookRequest.gated template naming)
  return { category, target := template.target, owners := requests.map (·.owner),
           body := frame template changes }

end Patch

end JokerScript
