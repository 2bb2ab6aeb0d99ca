import JokerScript.Number.Basic

/-!
# Rounding to Binary64

A quotient of natural numbers, and a decimal `d * 10 ^ e`, become the nearest
double-precision number; a tie goes to the even significand. A magnitude too large for
the format becomes infinity, one too small becomes zero.

## Main definitions

* `Number.ofRatio` — the number nearest to a quotient.
* `Number.ofDecimal` — the number nearest to a decimal.
* `Number.ofInt` — the number nearest to an integer.
-/

namespace JokerScript

/-- The integer nearest to `num / den`, ties to even. -/
def roundedQuotient (num den : Nat) : Nat :=
  let floor := num / den
  let rest := num % den
  if den < 2 * rest || (den == 2 * rest && floor % 2 == 1) then floor + 1 else floor

namespace Number

/-- The number whose exponent and fraction fields, read as one integer, are `code`.
Codes grow with the magnitude, and those past the finite range are infinite. -/
def ofCode (negative : Bool) (code : Nat) : Number :=
  if h : code < 2047 * 0x10000000000000 then
    ⟨negative, ⟨code / 0x10000000000000, by omega⟩,
      ⟨code % 0x10000000000000, Nat.mod_lt _ (by decide)⟩⟩
  else
    infinity negative

/-- The largest `e` with `2 ^ e ≤ num / den`, for positive arguments. -/
def binaryOrder (num den : Nat) : Int :=
  let e : Int := (num.log2 : Int) - den.log2
  if den * Nat.pow 2 e.toNat ≤ num * Nat.pow 2 (-e).toNat then e else e - 1

/-- The number of the given sign nearest to `num / den`, ties to even. -/
def ofRatio (negative : Bool) (num den : Nat) : Number :=
  if num = 0 then
    zero negative
  else
    let unit : Int := max (binaryOrder num den - 52) (-1074)
    let significand := roundedQuotient (num * Nat.pow 2 (-unit).toNat) (den * Nat.pow 2 unit.toNat)
    ofCode negative ((unit + 1074).toNat * 0x10000000000000 + significand)

/-- The number of the given sign nearest to `digits * 10 ^ exponent`. Exponents far
outside the format are settled without computing the power. -/
def ofDecimal (negative : Bool) (digits : Nat) (exponent : Int) : Number :=
  if digits = 0 then
    zero negative
  else if 400 < exponent then
    infinity negative
  else if exponent < -(400 + digits.log2 : Int) then
    zero negative
  else
    ofRatio negative (digits * Nat.pow 10 exponent.toNat) (Nat.pow 10 (-exponent).toNat)

/-- The number nearest to an integer. -/
def ofInt (i : Int) : Number := ofRatio (i < 0) i.natAbs 1

end Number

end JokerScript
