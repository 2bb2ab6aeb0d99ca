import JokerScript.Error
import JokerScript.Joker.Basic

/-!
# The Storage of a Joker

Every copy of a joker keeps numbers in variables of its own. Two effects of one joker
must not share a variable, so names are claimed: the first of `hands`, `hands2`,
`hands3`, … that is free. A claim reserves the name together with its suffixed forms,
and no declaration is ever changed or removed.

## Main definitions

* `StoredVariable`, `Storage` — the declared variables and the names that are taken.
* `Storage.claim` — the first free name.
* `Storage.declare` — a new variable with its value.
* `Storage.ofJoker` — the storage with the joker's own variables.
-/

namespace JokerScript

/-- A variable with the value that it starts from. -/
structure StoredVariable where
  name : String
  value : Number
deriving DecidableEq, Repr

/-- What a quantity may need beside its own name: the bounds of a range. -/
def valueSuffixes : List String := ["", "_min", "_max"]

/-- The names and variables of one joker. -/
structure Storage where
  /-- The names that no claim may return. -/
  taken : List String := []
  /-- The variables, in the order of their declarations. -/
  declared : List StoredVariable := []
deriving DecidableEq, Repr

namespace Storage

instance : Inhabited Storage := ⟨{}⟩

/-! ### Names -/

/-- Is the name reserved or declared? -/
def contains (s : Storage) (name : String) : Bool := s.taken.contains name

/-- The position of the variable of a name among the declared ones. -/
def index? (s : Storage) (name : String) : Option Nat :=
  s.declared.findIdx? fun v => v.name == name

/-- Is a variable of this name declared? -/
def isDeclared (s : Storage) (name : String) : Bool := (s.index? name).isSome

/-- The value of the variable of a name. -/
def value? (s : Storage) (name : String) : Option Number :=
  (s.index? name).bind fun i => s.declared[i]?.map (·.value)

/-- The variables declared after the first `mark` ones. -/
def declaredSince (s : Storage) (mark : Nat) : List StoredVariable := s.declared.drop mark

/-! ### Claims -/

/-- The names tried for a base, counted from zero: `base`, `base2`, `base3`, … -/
def candidate (base : String) (n : Nat) : String :=
  if n = 0 then base else base ++ toString (n + 1)

/-- A name and its suffixed forms. -/
def forms (suffixes : List String) (name : String) : List String :=
  name :: suffixes.map fun suffix => name ++ suffix

/-- Are the name and its suffixed forms free? -/
def isFree (s : Storage) (suffixes : List String) (name : String) : Bool :=
  (forms suffixes name).all fun form => !s.contains form

/-- The first free name from the `n`-th candidate on, after at most `fuel` others. -/
def firstFree (s : Storage) (base : String) (suffixes : List String) : Nat → Nat → String
  | 0, n => candidate base n
  | fuel + 1, n =>
    if s.isFree suffixes (candidate base n) then
      candidate base n
    else
      s.firstFree base suffixes fuel (n + 1)

/-- How many candidates the taken names can block at most: each blocks one candidate by
itself and one by each suffix. -/
def blockedBound (s : Storage) (suffixes : List String) : Nat :=
  s.taken.length * (suffixes.length + 1)

/-- The name that a claim returns. -/
def claimedName (s : Storage) (base : String) (suffixes : List String) : String :=
  s.firstFree base suffixes (s.blockedBound suffixes) 0

/-- The storage with more names taken. -/
def reserve (s : Storage) (names : List String) : Storage :=
  { s with taken := names.foldl (fun taken name => taken.insert name) s.taken }

/-- Claim the first free name for a base, and reserve it with its suffixed forms. -/
def claim (s : Storage) (base : String) (suffixes : List String) : String × Storage :=
  let name := s.claimedName base suffixes
  (name, s.reserve (forms suffixes name))

/-! ### Declarations -/

/-- Declare a variable. A name is declared at most once. -/
def declare (s : Storage) (v : StoredVariable) : Except CompileError Storage :=
  if s.isDeclared v.name then
    .error (.duplicateConfigVariable v.name)
  else
    .ok { taken := s.taken.insert v.name, declared := s.declared ++ [v] }

/-- Take up a variable of the joker: a number is declared, any other kind only reserves
its name. -/
def adopt (s : Storage) (v : Variable) : Except CompileError Storage :=
  let reserved := s.reserve [v.name]
  if v.kind = .number then reserved.declare ⟨v.name, v.initial⟩ else .ok reserved

/-- The storage with the variables of a joker. -/
def ofJoker (joker : Joker) : Except CompileError Storage := joker.vars.foldlM adopt {}

end Storage

end JokerScript
