import JokerScript.Json.Basic
import JokerScript.Number.Text

/-!
# Compact JSON Text

A value is written without blanks. A float always shows that it is one: it has a
fractional part or an exponent, and very large and very small magnitudes are written
with an exponent.

## Main definitions

* `Json.floatChars` — the text of a float.
* `Json.chars`, `Json.compact` — the text of a value.
-/

namespace JokerScript

namespace Json

/-! ### Floats -/

/-- The digits of a decimal with a point after the first, if there are more. -/
def scientificDigits : List Char → List Char
  | [] => []
  | [d] => [d]
  | d :: rest => d :: '.' :: rest

/-- The exponent of a decimal, always with its sign. -/
def exponentChars (e : Int) : List Char :=
  'e' :: (if e < 0 then '-' else '+') :: digitChars e.natAbs

/-- The text of a decimal: positional while the point falls at most sixteen places after
the first digit and at most four zeros stand between point and digits, with an exponent
otherwise. -/
def decimalChars (d : Decimal) : List Char :=
  let digits := digitChars d.coefficient
  let point : Int := digits.length + d.exponent
  if -5 < point ∧ point ≤ 16 then
    if 0 ≤ d.exponent then d.positional ++ ['.', '0'] else d.positional
  else
    scientificDigits digits ++ exponentChars (point - 1)

/-- The text of a finite float. Of two equally near decimals the even one is written. -/
def floatChars (n : Number) : List Char :=
  n.signChars ++ if n.isZero then ['0', '.', '0'] else decimalChars (n.shortest .even)

/-! ### Strings -/

/-- The four lowercase hexadecimal digits of a code unit. -/
def hexDigits (n : Nat) : List Char :=
  [n / 4096 % 16, n / 256 % 16, n / 16 % 16, n % 16].map Nat.digitChar

/-- How one character stands in a string. -/
def escapeChar (c : Char) : List Char :=
  if c = '"' then ['\\', '"']
  else if c = '\\' then ['\\', '\\']
  else if c = '\n' then ['\\', 'n']
  else if c = '\r' then ['\\', 'r']
  else if c = '\t' then ['\\', 't']
  else if c.toNat = 8 then ['\\', 'b']
  else if c.toNat = 12 then ['\\', 'f']
  else if c.toNat < 32 then '\\' :: 'u' :: hexDigits c.toNat
  else [c]

/-- The text of a string, with its quotes. -/
def stringChars (s : String) : List Char :=
  '"' :: s.toList.flatMap escapeChar ++ ['"']

/-! ### Values -/

mutual

/-- The characters of the compact text of a value. -/
def chars : Json → List Char
  | .null => "null".toList
  | .bool true => "true".toList
  | .bool false => "false".toList
  | .int i => (toString i).toList
  | .float n => if n.isFinite then floatChars n else "null".toList
  | .str s => stringChars s
  | .arr items => '[' :: itemChars items ++ [']']
  | .obj members => '{' :: memberChars members ++ ['}']

/-- The items of an array, separated by commas. -/
def itemChars : List Json → List Char
  | [] => []
  | [item] => chars item
  | item :: rest => chars item ++ ',' :: itemChars rest

/-- The members of an object, separated by commas. -/
def memberChars : List (String × Json) → List Char
  | [] => []
  | [(name, value)] => stringChars name ++ ':' :: chars value
  | (name, value) :: rest => stringChars name ++ ':' :: chars value ++ ',' :: memberChars rest

end

/-- The compact text of a value. -/
def compact (j : Json) : String := String.ofList j.chars

end Json

end JokerScript
