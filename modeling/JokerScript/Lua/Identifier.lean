/-!
# Lua Identifiers

A name may stand in a dotted path only if it is an identifier: a letter or underscore,
then letters, digits and underscores, and no reserved word.

## Main definitions

* `Lua.keywords` — the reserved words.
* `Lua.isIdentifier` — the test.
-/

namespace JokerScript.Lua

/-- The reserved words of Lua. -/
def keywords : List String :=
  ["and", "break", "do", "else", "elseif", "end", "false", "for", "function", "goto",
    "if", "in", "local", "nil", "not", "or", "repeat", "return", "then", "true", "until",
    "while"]

/-- May an identifier begin with this character? -/
def isNameStart (c : Char) : Bool := c.isAlpha || c == '_'

/-- May this character stand inside an identifier? -/
def isNameChar (c : Char) : Bool := c.isAlphanum || c == '_'

/-- Do the characters have the shape of a name, reserved or not? -/
def isNameShape : List Char → Bool
  | [] => false
  | c :: rest => isNameStart c && rest.all isNameChar

/-- Is the text usable as an identifier? -/
def isIdentifier (name : String) : Bool :=
  isNameShape name.toList && !keywords.contains name

end JokerScript.Lua
