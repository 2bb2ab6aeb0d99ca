import JokerScript.Number.Basic

/-!
# JSON Values

Authored projects are exchanged as JSON. Integers and other numbers are kept apart,
because an integer is written back without a fractional part. The members of an object
are kept in the order of their names, one member a name.

## Main definitions

* `Json` — a JSON value.
* `Json.insertMember` — set one member of an object.
-/

namespace JokerScript

/-- A JSON value. -/
inductive Json where
  | null
  | bool (b : Bool)
  /-- A number written without point and exponent. -/
  | int (i : Int)
  /-- Any other number. -/
  | float (n : Number)
  | str (s : String)
  | arr (items : List Json)
  | obj (members : List (String × Json))
deriving Repr

namespace Json

instance : Inhabited Json := ⟨null⟩

/-- Set a member among members that are sorted by name; a member of that name is
replaced. -/
def insertMember (name : String) (value : Json) :
    List (String × Json) → List (String × Json)
  | [] => [(name, value)]
  | (n, v) :: rest =>
    if name = n then
      (name, value) :: rest
    else if name < n then
      (name, value) :: (n, v) :: rest
    else
      (n, v) :: insertMember name value rest

/-- The object with the given members; of two with one name the later counts. -/
def ofMembers (members : List (String × Json)) : Json :=
  obj (members.foldl (fun sorted m => insertMember m.1 m.2 sorted) [])

/-- An encoded value, or `null` for none. -/
def ofOption {α : Type} (encode : α → Json) : Option α → Json
  | none => null
  | some a => encode a

end Json

end JokerScript
