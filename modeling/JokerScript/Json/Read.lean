import JokerScript.Json.Basic
import JokerScript.Number.Text

/-!
# Reading JSON Text

The reader takes exactly one value with blanks around it. A number without point and
exponent is an integer if it fits 64 bits, and a float otherwise; the negative zero is a
float, because only a float has that sign.

## Main definitions

* `Json.ofChars?`, `Json.read?` — the value that a text holds.
-/

namespace JokerScript

namespace Json.Reader

/-! ### Tokens -/

/-- Is the character one of the four blanks that may stand between tokens? -/
def isSpace (c : Char) : Bool := c == ' ' || c == '\n' || c == '\t' || c == '\r'

/-- The text from its first token on. -/
def skipSpace (cs : List Char) : List Char := cs.dropWhile isSpace

/-- The value of a hexadecimal digit. -/
def hexValue? (c : Char) : Option Nat :=
  if c.isDigit then some (c.toNat - '0'.toNat)
  else if 'a' ≤ c ∧ c ≤ 'f' then some (c.toNat - 'a'.toNat + 10)
  else if 'A' ≤ c ∧ c ≤ 'F' then some (c.toNat - 'A'.toNat + 10)
  else none

/-- The code unit that four hexadecimal digits spell, and the text after them. -/
def hexUnit? : List Char → Option (Nat × List Char)
  | a :: b :: c :: d :: rest => do
    let a ← hexValue? a
    let b ← hexValue? b
    let c ← hexValue? c
    let d ← hexValue? d
    some (((a * 16 + b) * 16 + c) * 16 + d, rest)
  | _ => none

/-- The character after `\u`: one code unit, or two that form a surrogate pair. -/
def unicodeEscape? (cs : List Char) : Option (Char × List Char) := do
  let (unit, rest) ← hexUnit? cs
  if 0xD800 ≤ unit ∧ unit < 0xDC00 then
    match rest with
    | '\\' :: 'u' :: rest => do
      let (low, rest) ← hexUnit? rest
      if 0xDC00 ≤ low ∧ low < 0xE000 then
        some (Char.ofNat (0x10000 + (unit - 0xD800) * 1024 + (low - 0xDC00)), rest)
      else
        none
    | _ => none
  else if 0xDC00 ≤ unit ∧ unit < 0xE000 then
    none
  else
    some (Char.ofNat unit, rest)

/-- The character that a backslash and the text after it stand for. -/
def escape? : List Char → Option (Char × List Char)
  | 'u' :: rest => unicodeEscape? rest
  | '"' :: rest => some ('"', rest)
  | '\\' :: rest => some ('\\', rest)
  | '/' :: rest => some ('/', rest)
  | 'b' :: rest => some (Char.ofNat 8, rest)
  | 'f' :: rest => some (Char.ofNat 12, rest)
  | 'n' :: rest => some ('\n', rest)
  | 'r' :: rest => some ('\r', rest)
  | 't' :: rest => some ('\t', rest)
  | _ => none

/-- The rest of a string after its opening quote, and the text after the closing one;
`fuel` bounds the characters read. -/
def stringTail? : Nat → List Char → Option (List Char × List Char)
  | 0, _ => none
  | _ + 1, [] => none
  | _ + 1, '"' :: rest => some ([], rest)
  | fuel + 1, '\\' :: rest => do
    let (c, rest) ← escape? rest
    let (cs, rest) ← stringTail? fuel rest
    some (c :: cs, rest)
  | fuel + 1, c :: rest =>
    if c.toNat < 32 then
      none
    else do
      let (cs, rest) ← stringTail? fuel rest
      some (c :: cs, rest)

/-- The digits before the point: a zero, or digits that do not begin with one. -/
def wholeDigits? (cs : List Char) : Option (List Char × List Char) :=
  match cs.span Char.isDigit with
  | ([], _) => none
  | ('0' :: _ :: _, _) => none
  | split => some split

/-- The digits after a point, if there is one. -/
def fractionDigits? : List Char → Option (List Char × List Char)
  | '.' :: rest =>
    match rest.span Char.isDigit with
    | ([], _) => none
    | split => some split
  | cs => some ([], cs)

/-- The exponent, if there is one. -/
def exponent? : List Char → Option (Option Int × List Char)
  | c :: rest =>
    if c = 'e' ∨ c = 'E' then
      let (negative, rest) := Number.splitSign rest
      match rest.span Char.isDigit with
      | ([], _) => none
      | (digits, rest) =>
        let value : Int := Number.digitsValue 0 digits
        some (some (if negative then -value else value), rest)
    else
      some (none, c :: rest)
  | [] => some (none, [])

/-- The number that a literal without point and exponent stands for. -/
def ofIntegerLiteral (negative : Bool) (magnitude : Nat) : Json :=
  if negative then
    if magnitude = 0 ∨ 0x8000000000000000 < magnitude then
      float (Number.ofDecimal true magnitude 0)
    else
      int (-magnitude)
  else if magnitude < 0x10000000000000000 then
    int magnitude
  else
    float (Number.ofDecimal false magnitude 0)

/-- The number at the head of a text. A number beyond the finite range is refused. -/
def number? (cs : List Char) : Option (Json × List Char) := do
  let (negative, cs) :=
    match cs with
    | '-' :: rest => (true, rest)
    | cs => (false, cs)
  let (whole, cs) ← wholeDigits? cs
  let (fraction, afterFraction) ← fractionDigits? cs
  let (exponent, rest) ← exponent? afterFraction
  let digits := Number.digitsValue (Number.digitsValue 0 whole) fraction
  match fraction, exponent with
  | [], none => some (ofIntegerLiteral negative digits, rest)
  | _, _ =>
    let n := Number.ofDecimal negative digits (exponent.getD 0 - fraction.length)
    if n.isFinite then some (float n, rest) else none

/-! ### Values -/

mutual

/-- The value at the head of a text; `fuel` bounds the calls along one path, which are at
most two for each character. -/
def value? : Nat → List Char → Option (Json × List Char)
  | 0, _ => none
  | fuel + 1, cs =>
    match skipSpace cs with
    | 'n' :: 'u' :: 'l' :: 'l' :: rest => some (null, rest)
    | 't' :: 'r' :: 'u' :: 'e' :: rest => some (bool true, rest)
    | 'f' :: 'a' :: 'l' :: 's' :: 'e' :: rest => some (bool false, rest)
    | '"' :: rest => (stringTail? fuel rest).map fun (s, rest) =>
        (str (String.ofList s), rest)
    | '[' :: rest =>
      match skipSpace rest with
      | ']' :: rest => some (arr [], rest)
      | rest => (items? fuel rest).map fun (items, rest) => (arr items, rest)
    | '{' :: rest =>
      match skipSpace rest with
      | '}' :: rest => some (obj [], rest)
      | rest => (members? fuel rest).map fun (members, rest) => (ofMembers members, rest)
    | rest => number? rest

/-- The items of an array, up to and with the closing bracket. -/
def items? : Nat → List Char → Option (List Json × List Char)
  | 0, _ => none
  | fuel + 1, cs => do
    let (item, rest) ← value? fuel cs
    match skipSpace rest with
    | ']' :: rest => some ([item], rest)
    | ',' :: rest => do
      let (items, rest) ← items? fuel rest
      some (item :: items, rest)
    | _ => none

/-- The members of an object, up to and with the closing brace. -/
def members? : Nat → List Char → Option (List (String × Json) × List Char)
  | 0, _ => none
  | fuel + 1, cs =>
    match skipSpace cs with
    | '"' :: rest => do
      let (name, rest) ← stringTail? fuel rest
      match skipSpace rest with
      | ':' :: rest => do
        let (value, rest) ← value? fuel rest
        match skipSpace rest with
        | '}' :: rest => some ([(String.ofList name, value)], rest)
        | ',' :: rest => do
          let (members, rest) ← members? fuel rest
          some ((String.ofList name, value) :: members, rest)
        | _ => none
      | _ => none
    | _ => none

end

end Json.Reader

/-! ### Texts -/

namespace Json

/-- The value that the characters of a text hold. -/
def ofChars? (cs : List Char) : Option Json :=
  match Reader.value? (2 * cs.length + 2) cs with
  | some (j, rest) => if (Reader.skipSpace rest).isEmpty then some j else none
  | none => none

/-- The value that a text holds. -/
def read? (s : String) : Option Json := ofChars? s.toList

end Json

end JokerScript
