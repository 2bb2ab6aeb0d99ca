import JokerScript.Json.Basic
import JokerScript.Number.Rounding

/-!
# Decoding JSON Values

Typed values are read from JSON values by small decoders, functions into `Option`. A
record is read member by member: a member may be required, may have a default that
stands in when it is missing, or may be optional, in which case `null` counts as
missing. Members that nobody asks for are ignored.

## Tag convention

A tag with data is an object whose only member has the tag as its name and the data as
its value. A tag without data is a bare text, or such an object with nothing as its
value. What counts as nothing is fixed by the place (`TagForm`): `null` everywhere, and
inside the parameters of a condition or an effect the empty object too.

## Main definitions

* `Json.required`, `Json.withDefault`, `Json.optional` — the three kinds of members.
* `Json.variant?` — one alternative of several, with its data.
* `TagForm`, `Json.tag?` — an alternative without data.
-/

namespace JokerScript

/-- What may stand for the data of a tag that has none. -/
inductive TagForm
  /-- Only `null`. -/
  | strict
  /-- `null` or the empty object. -/
  | lenient
deriving DecidableEq, Repr

namespace Json

/-! ### Leaves -/

/-- A truth value. -/
def bool? : Json → Option Bool
  | .bool b => some b
  | _ => none

/-- A text. -/
def string? : Json → Option String
  | .str s => some s
  | _ => none

/-- A number; integers are rounded to the nearest one. -/
def number? : Json → Option Number
  | .int i => some (Number.ofInt i)
  | .float n => some n
  | _ => none

/-- A natural number. -/
def nat? : Json → Option Nat
  | .int i => if 0 ≤ i then some i.toNat else none
  | _ => none

/-- Every item of an array, decoded. -/
def list? {α : Type} (decode : Json → Option α) : Json → Option (List α)
  | .arr items => items.mapM decode
  | _ => none

/-- The members of an object. -/
def members? : Json → Option (List (String × Json))
  | .obj members => some members
  | _ => none

/-- A value for which `null` stands for absence. -/
def nullable {α : Type} (decode : Json → Option α) : Json → Option (Option α)
  | .null => some none
  | j => (decode j).map some

/-! ### Members -/

/-- The member of a name. -/
def find (members : List (String × Json)) (name : String) : Option Json :=
  members.lookup name

/-- A member that must be there. -/
def required {α : Type} (members : List (String × Json)) (name : String)
    (decode : Json → Option α) : Option α :=
  (find members name).bind decode

/-- A member with a default. A member that is there must decode. -/
def withDefault {α : Type} (members : List (String × Json)) (name : String) (default : α)
    (decode : Json → Option α) : Option α :=
  match find members name with
  | none => some default
  | some j => decode j

/-- A member that may be missing or `null`. -/
def optional {α : Type} (members : List (String × Json)) (name : String)
    (decode : Json → Option α) : Option (Option α) :=
  withDefault members name none (nullable decode)

/-! ### Alternatives -/

/-- The tag of one alternative of several, with its data: a bare tag has none, and an
object with one member has the value of that member. -/
def variant? : Json → Option (String × Option Json)
  | .str tag => some (tag, none)
  | .obj [(tag, value)] => some (tag, some value)
  | _ => none

/-- Does a value stand for the data of a tag that has none? -/
def isNothing (form : TagForm) : Json → Bool
  | null => true
  | obj [] => form == .lenient
  | _ => false

/-- The tag of an alternative without data. -/
def tag? (form : TagForm) (j : Json) : Option String :=
  match variant? j with
  | some (tag, none) => some tag
  | some (tag, some data) => if isNothing form data then some tag else none
  | none => none

/-- A value of an enumeration, by its tag. -/
def tagged? {α : Type} (ofTag? : String → Option α) (form : TagForm) (j : Json) : Option α :=
  (tag? form j).bind ofTag?

/-- The tag and the data of an object with a member `type` and a member `params`. -/
def typed? (j : Json) : Option (String × Json) := do
  let members ← members? j
  let tag ← required members "type" (tag? .strict)
  let params ← find members "params"
  some (tag, params)

/-- The object with a member `type` and a member `params`. -/
def typed (tag : String) (params : Json) : Json :=
  .obj [("type", .str tag), ("params", params)]

end Json

end JokerScript
