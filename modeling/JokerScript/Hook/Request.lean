import JokerScript.Error
import JokerScript.Joker.Json

/-!
# Hook Requests

A joker asks for a change to a function of the game by a request. A request is filed
under a category and holds a change of one; the two must agree.

## Main definitions

* `HookChange`, `HookChange.category` — the changes, each of one category.
* `HookRequest`, `HookRequest.check` — requests and their one rule.
-/

namespace JokerScript

namespace HookCategory

/-- The category of a tag. -/
def ofTag (tag : String) : Except CompileError HookCategory :=
  match Tagged.ofTag? tag with
  | some category => .ok category
  | none => .error (.unknownHookCategory tag)

/-- The category of a JSON form, which is a bare text. -/
def ofJson? (j : Json) : Option HookCategory := j.string?.bind Tagged.ofTag?

end HookCategory

/-- A change to a function of the game. -/
inductive HookChange
  | discount (params : Discount)
  | suitPair (params : SuitPair)
deriving DecidableEq, Repr

namespace HookChange

/-- The category that the change belongs to. -/
def category : HookChange → HookCategory
  | discount _ => .discountItems
  | suitPair _ => .combineSuits

/-- The JSON form. -/
def toJson : HookChange → Json
  | discount params => .obj [("discount_items", params.toJson)]
  | suitPair params => .obj [("combine_suits", params.toJson)]

/-- The change of a JSON form. -/
def ofJson? (j : Json) : Option HookChange :=
  match j.variant? with
  | some ("discount_items", some params) => (Discount.ofJson? .strict params).map discount
  | some ("combine_suits", some params) => (SuitPair.ofJson? .strict params).map suitPair
  | _ => none

end HookChange

/-- What one joker asks for. -/
structure HookRequest where
  /-- The change applies only while this joker is held. -/
  owner : JokerKey
  category : HookCategory
  change : HookChange
deriving DecidableEq, Repr

namespace HookRequest

/-- The request filed under the category of its change. -/
def ofChange (owner : JokerKey) (change : HookChange) : HookRequest :=
  ⟨owner, change.category, change⟩

/-- The change must belong to the category that the request is filed under. -/
def check (request : HookRequest) : Except CompileError Unit :=
  if request.change.category = request.category then
    .ok ()
  else
    .error (.hookParamsMismatch request.category request.change.category)

/-- The request filed under the category of a tag. -/
def ofTag (owner : JokerKey) (tag : String) (change : HookChange) :
    Except CompileError HookRequest := do
  let category ← HookCategory.ofTag tag
  let request : HookRequest := ⟨owner, category, change⟩
  request.check
  return request

/-- The JSON form. -/
def toJson (request : HookRequest) : Json :=
  .obj [("owner", .str request.owner.text), ("category", Tagged.toJson request.category),
    ("params", request.change.toJson)]

/-- The request of a JSON form. -/
def ofJson? (j : Json) : Option HookRequest := do
  let members ← j.members?
  let owner ← Json.required members "owner" Json.string?
  let category ← Json.required members "category" HookCategory.ofJson?
  let change ← Json.required members "params" HookChange.ofJson?
  some ⟨⟨owner⟩, category, change⟩

end HookRequest

end JokerScript
