import JokerScript.Number.Shortest

/-!
# Numbers as Text

The written form of a number is its shortest decimal without an exponent: `0.1`, `25`,
`1000000000000000000000`, `-0`, `inf`, `NaN`. The reader accepts more: an optional sign,
digits with an optional point, an optional exponent, and the names `inf`, `infinity` and
`nan` in any letter case.

## Main definitions

* `Number.text` — the written form.
* `Number.read?` — the reader; `none` is no numeral at all.
-/

namespace JokerScript

/-! ### Writing -/

/-- The digits of a natural number. -/
def digitChars (n : Nat) : List Char := Nat.toDigits 10 n

namespace Decimal

/-- The decimal without an exponent; a point stands only before a fractional part. -/
def positional (d : Decimal) : List Char :=
  let digits := digitChars d.coefficient
  let places := (-d.exponent).toNat
  if places = 0 then
    digits ++ List.replicate d.exponent.toNat '0'
  else if places < digits.length then
    digits.take (digits.length - places) ++ '.' :: digits.drop (digits.length - places)
  else
    '0' :: '.' :: List.replicate (places - digits.length) '0' ++ digits

end Decimal

namespace Number

/-- The minus sign of a number, if it carries one. -/
def signChars (n : Number) : List Char := if n.negative then ['-'] else []

/-- The characters of the written form. -/
def chars (n : Number) : List Char :=
  if n.isNaN then
    "NaN".toList
  else if n.isFinite then
    n.signChars ++ (n.shortest .up).positional
  else
    n.signChars ++ "inf".toList

/-- The written form of a number: the shortest decimal that reads back, without an
exponent. -/
def text (n : Number) : String := String.ofList n.chars

/-! ### Reading -/

/-- The value of a list of decimal digits after the digits counted in `acc`. -/
def digitsValue (acc : Nat) (cs : List Char) : Nat :=
  cs.foldl (fun value c => 10 * value + (c.toNat - '0'.toNat)) acc

/-- An optional sign and the text after it; the flag tells whether it is a minus. -/
def splitSign : List Char → Bool × List Char
  | '-' :: rest => (true, rest)
  | '+' :: rest => (false, rest)
  | cs => (false, cs)

/-- The exponent part of a numeral, which must reach the end of the text. The empty text
is the exponent zero. -/
def readExponent? : List Char → Option Int
  | [] => some 0
  | c :: rest =>
    if c = 'e' ∨ c = 'E' then
      let (negative, digits) := splitSign rest
      if digits.isEmpty || !digits.all Char.isDigit then
        none
      else
        let value : Int := digitsValue 0 digits
        some (if negative then -value else value)
    else
      none

/-- The fractional digits after an integer part, and what follows them. -/
def splitFraction : List Char → List Char × List Char
  | '.' :: rest => rest.span Char.isDigit
  | cs => ([], cs)

/-- An unsigned decimal numeral. At least one digit stands before or after the point. -/
def readUnsigned? (negative : Bool) (cs : List Char) : Option Number :=
  let (whole, rest) := cs.span Char.isDigit
  let (fraction, rest) := splitFraction rest
  if whole.isEmpty && fraction.isEmpty then
    none
  else
    (readExponent? rest).map fun exponent =>
      ofDecimal negative (digitsValue (digitsValue 0 whole) fraction)
        (exponent - fraction.length)

/-- The non-finite number that a word names. -/
def readName? (negative : Bool) (cs : List Char) : Option Number :=
  let word := cs.map Char.toLower
  if word = "inf".toList ∨ word = "infinity".toList then
    some (infinity negative)
  else if word = "nan".toList then
    some (nan negative)
  else
    none

/-- Read the whole text as a numeral. -/
def readChars? (cs : List Char) : Option Number :=
  let (negative, rest) := splitSign cs
  (readUnsigned? negative rest).orElse fun _ => readName? negative rest

/-- Read a text as a numeral; blanks are not skipped. -/
def read? (s : String) : Option Number := readChars? s.toList

end Number

end JokerScript
