import JokerScript.Number.Rounding

/-!
# Shortest Decimals

The decimal written for a finite number is the one with the fewest digits that reads
back as that number; among several of that length it is the nearest. The two neighbours
of the number on each decimal grid are tried in exact arithmetic, from one digit
upwards.

## Main definitions

* `Decimal` — a coefficient and a power of ten.
* `Number.shortest` — the shortest decimal that reads back.
* `Number.exactDecimal` — the decimal expansion, which always reads back.
-/

namespace JokerScript

/-- The decimal `coefficient * 10 ^ exponent`. -/
structure Decimal where
  coefficient : Nat
  exponent : Int
deriving DecidableEq, Repr

/-- Which of two equally near decimals is written. -/
inductive TieRule
  /-- The one of larger magnitude. -/
  | up
  /-- The one with the even last digit. -/
  | even
deriving DecidableEq, Repr

namespace Decimal

/-- The coefficient `c` without its trailing zeros, each moved into the exponent;
`fuel` bounds how many are moved. -/
def dropZeros : Nat → Nat → Int → Decimal
  | 0, c, e => ⟨c, e⟩
  | fuel + 1, c, e => if c % 10 = 0 then dropZeros fuel (c / 10) (e + 1) else ⟨c, e⟩

/-- The same decimal without trailing zeros in its coefficient. -/
def normalize (d : Decimal) : Decimal :=
  if d.coefficient = 0 then ⟨0, 0⟩ else dropZeros d.coefficient.log2 d.coefficient d.exponent

end Decimal

/-- How many decimal digits a natural number has. -/
def decimalLength (n : Nat) : Nat := (Nat.toDigits 10 n).length

namespace Number

/-- The largest `e` with `10 ^ e ≤ num / den`, for positive arguments. -/
def decimalOrder (num den : Nat) : Int :=
  if den ≤ num then
    (decimalLength (num / den) : Int) - 1
  else
    -(decimalLength ((den + num - 1) / num - 1) : Int)

/-- Does the decimal read back as the number? -/
def readsBack (n : Number) (d : Decimal) : Bool :=
  ofDecimal n.negative d.coefficient d.exponent == n

/-- The nearest decimal of `count` digits that reads back as `n`, without trailing
zeros. -/
def decimalOfLength? (tie : TieRule) (n : Number) (count : Nat) : Option Decimal :=
  let exponent := decimalOrder n.numerator n.denominator + 1 - count
  let num := n.numerator * Nat.pow 10 (-exponent).toNat
  let den := n.denominator * Nat.pow 10 exponent.toNat
  let floor := num / den
  let rest := num % den
  let below := Decimal.normalize ⟨floor, exponent⟩
  let above := Decimal.normalize ⟨floor + 1, exponent⟩
  let preferAbove :=
    den < 2 * rest || (den == 2 * rest && (tie == .up || floor % 2 == 1))
  match n.readsBack below, n.readsBack above with
  | true, true => some (if preferAbove then above else below)
  | true, false => some below
  | false, true => some above
  | false, false => none

/-- The decimal expansion of a finite number: two divides ten, so there is one. -/
def exactDecimal (n : Number) : Decimal :=
  if 0 ≤ n.scale then
    ⟨n.numerator, 0⟩
  else
    ⟨n.significand * Nat.pow 5 (-n.scale).toNat, n.scale⟩

/-- The shortest decimal that reads back as a finite number. Seventeen digits always
suffice; the expansion stands in where no shorter decimal is found. -/
def shortest (tie : TieRule) (n : Number) : Decimal :=
  if n.isZero then
    ⟨0, 0⟩
  else
    ((List.range 17).findSome? fun i => n.decimalOfLength? tie (i + 1)).getD n.exactDecimal

end Number

end JokerScript
