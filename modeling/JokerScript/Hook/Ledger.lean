import JokerScript.Hook.Cost
import JokerScript.Hook.SuitCheck

/-!
# Collecting Hook Requests

Requests are collected for each category in the order in which they come. At the end all
requests of a category become one replacement of its function.

## Main definitions

* `HookLedger`, `HookLedger.add` — the templates and the requests of each category.
* `HookLedger.patches` — the replacements.
-/

namespace JokerScript

/-- The templates and the requests of each category. -/
structure HookLedger where
  template? : HookCategory → Option Template := fun _ => none
  /-- The requests in the order in which they came. -/
  requests : HookCategory → List HookRequest := fun _ => []

namespace HookLedger

/-! ### Templates -/

/-- Add a template; it takes the place of another one of its category. -/
def withTemplate (ledger : HookLedger) (template : Template) : HookLedger :=
  { ledger with
    template? := fun category =>
      if category = template.category then some template else ledger.template? category }

/-- The ledger with some templates, added in order. -/
def ofTemplates (templates : List Template) : HookLedger := templates.foldl withTemplate {}

/-- The templates of all categories. -/
def standardTemplates : List Template := [SetCost.template, SuitCheck.template]

/-- The ledger with a template for each category. -/
def standard : HookLedger := ofTemplates standardTemplates

/-! ### Requests -/

/-- May the request be added? Its category must have a template, and its change must
belong to the category. -/
def check (ledger : HookLedger) (request : HookRequest) : Except CompileError Unit :=
  match ledger.template? request.category with
  | none => .error (.unknownHookCategory (Tagged.tag request.category))
  | some _ => request.check

/-- Add a request after the others of its category. -/
def add (ledger : HookLedger) (request : HookRequest) : Except CompileError HookLedger := do
  ledger.check request
  return { ledger with
    requests := fun category =>
      if category = request.category then
        ledger.requests category ++ [request]
      else
        ledger.requests category }

/-- Add requests in order. -/
def addAll (ledger : HookLedger) (requests : List HookRequest) :
    Except CompileError HookLedger := requests.foldlM add ledger

/-- How many requests of a category there are. -/
def count (ledger : HookLedger) (category : HookCategory) : Nat :=
  (ledger.requests category).length

/-! ### Replacements -/

/-- The replacement of the function of a category; without requests there is none. -/
def patch? (ledger : HookLedger) (naming : Naming) (category : HookCategory) :
    Except CompileError (Option Patch) :=
  match ledger.requests category with
  | [] => .ok none
  | request :: rest =>
    match ledger.template? category with
    | none => .error (.unknownHookCategory (Tagged.tag category))
    | some template =>
      (Patch.ofRequests template naming category (request :: rest)).map some

/-- The replacements of all functions, category by category. -/
def patches (ledger : HookLedger) (naming : Naming) : Except CompileError (List Patch) := do
  let found ← (Tagged.all : List HookCategory).mapM (ledger.patch? naming)
  return found.filterMap id

end HookLedger

end JokerScript
