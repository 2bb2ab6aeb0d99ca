import JokerScript.Config
import JokerScript.Resolve.Source
import JokerScript.Resolve.Storage

/-!
# Resolving Quantities

A quantity is resolved to an expression that reads its number, and to the variables that
the expression needs. Resolving always has a result: a quantity that names no source is
zero.

## Main definitions

* `Resolver` — computations that claim and declare names; a failed one keeps what it had
  declared.
* `Resolved` — a resolved quantity.
* `resolve` — from a quantity to a resolved one.
-/

namespace JokerScript

open Lua

/-- What a literal becomes. -/
inductive LiteralPolicy
  /-- A numeral inside the expression. -/
  | inline
  /-- A variable of the joker. -/
  | declared
deriving DecidableEq, Repr

instance : Tagged LiteralPolicy where
  all := [.inline, .declared]
  tag
    | .inline => "inline"
    | .declared => "declared"
  find_tag := by intro a; cases a <;> rfl

/-! ### Resolved quantities -/

/-- A quantity with the source of its number settled. -/
inductive Resolved where
  /-- A constant, inside the expression or in a variable. -/
  | literal (value : Number) (slot : Option String)
  /-- The state of the game. -/
  | gameState (e : Expr)
  /-- A random draw between two stored bounds. -/
  | range (name : String) (min max : Number) (seed : String)
  /-- A variable that is already there. -/
  | named (name : String)

namespace Resolved

/-- The tag of the source. -/
def tag : Resolved → String
  | literal .. => "literal"
  | gameState _ => "game_state"
  | range .. => "range"
  | named _ => "named"

/-- The variable that holds the lower bound of a range. -/
def minName (name : String) : String := name ++ "_min"

/-- The variable that holds the upper bound of a range. -/
def maxName (name : String) : String := name ++ "_max"

/-- The expression that reads the number. -/
def expr : Resolved → Expr
  | literal _ (some slot) => .extra slot
  | literal value none => .number value
  | gameState e => e
  | range name _ _ seed =>
    .apply "pseudorandom" [.str seed, .extra (minName name), .extra (maxName name)]
  | named name => .extra name

/-- The variables that the expression needs and that are not there yet. -/
def configVariables : Resolved → List StoredVariable
  | literal value (some slot) => [⟨slot, value⟩]
  | range name min max _ => [⟨minName name, min⟩, ⟨maxName name, max⟩]
  | literal _ none | gameState _ | named _ => []

/-- Does every reading give the same number? A range draws anew each time. -/
def isStable : Resolved → Bool
  | range .. => false
  | literal .. | gameState _ | named _ => true

end Resolved

/-! ### Resolution -/

/-- Computations on the storage of a joker. A failure keeps the storage as it is at that
point. -/
abbrev Resolver := ExceptT CompileError (StateM Storage)

namespace Resolver

/-- Claim a name. -/
def claim (base : String) (suffixes : List String) : Resolver String := do
  let (name, storage) := (← get).claim base suffixes
  set storage
  return name

/-- Declare a variable. -/
def declare (v : StoredVariable) : Resolver Unit := do
  match (← get).declare v with
  | .ok storage => set storage
  | .error e => throw e

/-- Declare variables in order. -/
def declareAll : List StoredVariable → Resolver Unit
  | [] => return ()
  | v :: rest => do
    declare v
    declareAll rest

end Resolver

/-- How a quantity is to be resolved. -/
structure ResolveRequest where
  /-- The claimed name, or under the inline policy the base of one. -/
  name : String
  /-- The id of the rule or effect that the quantity belongs to. -/
  owner : String
  policy : LiteralPolicy
deriving DecidableEq, Repr

namespace ResolveRequest

/-- Keep literals and bounds in variables of the claimed name. -/
def declared (name owner : String) : ResolveRequest := ⟨name, owner, .declared⟩

/-- Keep literals in the expression; a range claims a name of its own. -/
def inline (base owner : String) : ResolveRequest := ⟨base, owner, .inline⟩

/-- A literal under the policy of the request. -/
def literal (request : ResolveRequest) (value : Number) : Resolved :=
  match request.policy with
  | .declared => .literal value (some request.name)
  | .inline => .literal value none

/-- The name of the variables of a range. -/
def rangeName (request : ResolveRequest) : Resolver String :=
  match request.policy with
  | .declared => return request.name
  | .inline => Resolver.claim request.name valueSuffixes

end ResolveRequest

/-- Settle the source of a quantity, without declaring anything. -/
def settle (naming : Naming) (request : ResolveRequest) (source : Source) :
    Resolver Resolved := do
  match source with
  | .gameVar v =>
    match v.expr? with
    | some e => return .gameState e
    | none => return request.literal (Number.zero false)
  | .range min max =>
    let name ← request.rangeName
    return .range name min max (naming.seed name request.owner)
  | .named name =>
    if (← get).isDeclared name then
      return .named name
    else
      return request.literal (Number.zero false)
  | .number n => return request.literal n
  | .unresolved => return request.literal (Number.zero false)

/-- Resolve a quantity and declare the variables that it needs. -/
def resolve (naming : Naming) (request : ResolveRequest) (q : Quantity) :
    Resolver Resolved := do
  let resolved ← settle naming request (Source.ofQuantity q)
  Resolver.declareAll resolved.configVariables
  return resolved

end JokerScript
