import JokerScript.Json.Decode

/-!
# Tagged Enumerations

A closed choice is written in authored projects as a tag. An enumeration lists its
values and gives each a tag; reading a tag finds the value it belongs to, and every
value is found again by its own tag.

## Main definitions

* `Tagged` — an enumeration with tags.
* `Tagged.ofTag?` — the value of a tag.
* `Tagged.toJson`, `Tagged.ofJson?` — the JSON form.
-/

namespace JokerScript

/-- An enumeration whose values have distinct tags. -/
class Tagged (α : Type) where
  /-- Every value, in the order in which they are listed. -/
  all : List α
  /-- The tag of a value. -/
  tag : α → String
  /-- Every value is listed, and no earlier one has its tag. -/
  find_tag : ∀ a, all.find? (fun b => tag b == tag a) = some a

namespace Tagged

variable {α : Type} [Tagged α]

/-- The value that a tag belongs to. -/
def ofTag? (s : String) : Option α := (all : List α).find? fun a => tag a == s

/-- The JSON form: the bare tag. -/
def toJson (a : α) : Json := .str (tag a)

/-- The value of a JSON form. -/
def ofJson? (form : TagForm) (j : Json) : Option α := j.tagged? ofTag? form

@[simp] theorem ofTag?_tag (a : α) : ofTag? (tag a) = some a := find_tag a

@[simp] theorem ofJson?_toJson (form : TagForm) (a : α) :
    ofJson? form (toJson a) = some a := by
  simp [ofJson?, toJson, Json.tagged?, Json.tag?, Json.variant?]

end Tagged

end JokerScript
