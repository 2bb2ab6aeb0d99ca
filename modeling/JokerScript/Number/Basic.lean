/-!
# Binary64 Numbers

Every quantity of an authored joker is a double-precision number. A number is held by
its three binary fields, so that all of its laws are facts about natural numbers: no
statement of this library rests on machine floating point.

The library never adds or multiplies numbers. It classifies them, changes their sign,
and moves them between text and value.

## Main definitions

* `Number` — sign, biased exponent, and fraction.
* `Number.significand`, `Number.scale` — a finite number is, up to sign,
  `significand * 2 ^ scale`.
* `Number.whole?` — the magnitude of a finite number without a fractional part.
-/

namespace JokerScript

/-- A double-precision number: a sign, an exponent biased by `1023`, and the 52 bits
after the leading one. -/
structure Number where
  /-- The sign bit. Zero and NaN carry one too. -/
  negative : Bool
  /-- The biased exponent; `0` marks subnormal numbers and `2047` the non-finite ones. -/
  exponent : Fin 2048
  /-- The stored bits of the significand. -/
  fraction : Fin 0x10000000000000
deriving DecidableEq, Repr

namespace Number

/-! ### Particular numbers -/

/-- Zero of the given sign. -/
def zero (negative : Bool) : Number := ⟨negative, 0, 0⟩

/-- The number one. -/
def one : Number := ⟨false, 1023, 0⟩

/-- The number two. -/
def two : Number := ⟨false, 1024, 0⟩

/-- The number three. -/
def three : Number := ⟨false, 1024, 0x8000000000000⟩

/-- The number five. -/
def five : Number := ⟨false, 1025, 0x4000000000000⟩

/-- The number one hundred. -/
def hundred : Number := ⟨false, 1029, 2533274790395904⟩

/-- Infinity of the given sign. -/
def infinity (negative : Bool) : Number := ⟨negative, 2047, 0⟩

/-- The quiet NaN of the given sign. -/
def nan (negative : Bool) : Number := ⟨negative, 2047, 0x8000000000000⟩

instance : Inhabited Number := ⟨zero false⟩

/-! ### Classes -/

/-- Is the number neither infinite nor NaN? -/
def isFinite (n : Number) : Bool := n.exponent.val < 2047

/-- Is the number NaN? -/
def isNaN (n : Number) : Bool := n.exponent.val == 2047 && n.fraction.val != 0

/-- Is the number a zero of either sign? -/
def isZero (n : Number) : Bool := n.exponent.val == 0 && n.fraction.val == 0

/-- Is the number strictly below zero? NaN is not. -/
def isBelowZero (n : Number) : Bool := n.negative && !n.isZero && !n.isNaN

/-- The number with the opposite sign bit. -/
def opposite (n : Number) : Number := { n with negative := !n.negative }

/-! ### Value -/

/-- The integer significand of a finite number, with the implied leading one. -/
def significand (n : Number) : Nat :=
  if n.exponent.val = 0 then n.fraction.val else 0x10000000000000 + n.fraction.val

/-- The power of two that scales the significand of a finite number. -/
def scale (n : Number) : Int := (max n.exponent.val 1 : Nat) - 1075

/-- The numerator of the magnitude of a finite number, over `denominator`. -/
def numerator (n : Number) : Nat := n.significand * Nat.pow 2 n.scale.toNat

/-- The power of two under `numerator`. -/
def denominator (n : Number) : Nat := Nat.pow 2 (-n.scale).toNat

/-- The magnitude of a finite number that has no fractional part. -/
def whole? (n : Number) : Option Nat :=
  if n.isFinite && n.numerator % n.denominator == 0 then
    some (n.numerator / n.denominator)
  else
    none

end Number

end JokerScript
