import Mathlib.Algebra.Order.Floor.Ring
import Mathlib.Data.Rat.Floor
import JokerScript.Lua.Syntax

/-!
# Values of Running Code

Generated code computes with numbers, texts, tables and functions. Numbers are **exact**:
finite ones are rationals, so that no law of arithmetic is lost to rounding. The infinite
numbers and NaN stay, because an authored factor may be infinite.

## Main definitions

* `Lua.ExactNumber` with its operations — exact numbers.
* `Number.exact`, `Number.literalValue` — the exact number that a double-precision number
  stands for, and the one that its numeral denotes.
* `Lua.Value`, `Lua.Value.truthy`, `Lua.Value.same` — values.
* `Lua.BinaryOp.apply` — the operators that evaluate both operands.
-/

namespace JokerScript

namespace Lua

/-! ### Exact numbers -/

/-- An **exact number**: a rational, an infinity, or NaN. Zero has no sign. -/
inductive ExactNumber
  | finite (q : ℚ)
  | infinite (negative : Bool)
  | nan
deriving DecidableEq

namespace ExactNumber

/-- The sum. Opposite infinities have none. -/
def add : ExactNumber → ExactNumber → ExactNumber
  | finite a, finite b => finite (a + b)
  | nan, _ | _, nan => nan
  | infinite s, infinite t => if s = t then infinite s else nan
  | infinite s, finite _ | finite _, infinite s => infinite s

/-- The number with the opposite sign. -/
def neg : ExactNumber → ExactNumber
  | finite a => finite (-a)
  | infinite s => infinite (!s)
  | nan => nan

/-- The difference. -/
def sub (a b : ExactNumber) : ExactNumber := a.add b.neg

/-- The product. Zero times an infinity is none. -/
def mul : ExactNumber → ExactNumber → ExactNumber
  | finite a, finite b => finite (a * b)
  | nan, _ | _, nan => nan
  | infinite s, infinite t => infinite (s != t)
  | infinite s, finite q | finite q, infinite s =>
    if q = 0 then nan else infinite (s != decide (q < 0))

/-- The quotient. A nonzero number over zero is infinite. -/
def div : ExactNumber → ExactNumber → ExactNumber
  | finite a, finite b =>
    if b = 0 then if a = 0 then nan else infinite (decide (a < 0)) else finite (a / b)
  | nan, _ | _, nan => nan
  | infinite _, infinite _ => nan
  | infinite s, finite b => infinite (s != decide (b < 0))
  | finite _, infinite _ => finite 0

/-- Is the first number less than the second? Nothing compares with NaN. -/
def lt : ExactNumber → ExactNumber → Bool
  | finite a, finite b => decide (a < b)
  | nan, _ | _, nan => false
  | infinite s, infinite t => s && !t
  | infinite s, finite _ => s
  | finite _, infinite t => !t

/-- Are the numbers equal? NaN is not equal to itself. -/
def eq (a b : ExactNumber) : Bool := a != nan && decide (a = b)

/-- Is the first number less than the second, or equal to it? -/
def le (a b : ExactNumber) : Bool := a.lt b || a.eq b

/-- The greater of two numbers; the first one if they do not compare. -/
def max (a b : ExactNumber) : ExactNumber := if a.lt b then b else a

/-- The greatest integer that is not above the number. -/
def floor : ExactNumber → ExactNumber
  | finite a => finite ⌊a⌋
  | a => a

@[simp] theorem finite_add (a b : ℚ) : (finite a).add (finite b) = finite (a + b) := rfl

@[simp] theorem finite_sub (a b : ℚ) : (finite a).sub (finite b) = finite (a - b) := by
  rw [sub, neg, finite_add, sub_eq_add_neg]

@[simp] theorem finite_mul (a b : ℚ) : (finite a).mul (finite b) = finite (a * b) := rfl

@[simp] theorem finite_lt (a b : ℚ) : (finite a).lt (finite b) = decide (a < b) := rfl

@[simp] theorem finite_max (a b : ℚ) : (finite a).max (finite b) = finite (Max.max a b) := by
  rw [max, finite_lt]
  rcases lt_or_ge a b with h | h
  · simp [h, max_eq_right h.le]
  · simp [not_lt.mpr h, max_eq_left h]

theorem mul_one (a : ExactNumber) : a.mul (finite 1) = a := by
  have h : ¬((1 : ℚ) < 0) := by norm_num
  cases a <;> simp [mul, h]

theorem add_zero (a : ExactNumber) : a.add (finite 0) = a := by
  cases a <;> simp [add]

theorem sub_neg (a b : ExactNumber) : a.sub b.neg = a.add b := by
  cases b <;> simp [sub, neg]

theorem finite_div (a : ℚ) {b : ℚ} (h : b ≠ 0) : (finite a).div (finite b) = finite (a / b) :=
  if_neg h

theorem finite_le (a b : ℚ) : (finite a).le (finite b) = true ↔ a ≤ b := by
  simp [le, eq, le_iff_lt_or_eq]

/-- The numbers that are not negative. -/
theorem zero_le_iff {a : ExactNumber} :
    (finite 0).le a = true ↔ (∃ q, 0 ≤ q ∧ a = finite q) ∨ a = infinite false := by
  cases a with
  | finite q => simp [finite_le]
  | infinite s => cases s <;> simp [le, lt, eq]
  | nan => simp [le, lt, eq]

theorem le_infinite {a : ExactNumber} (h : (finite 0).lt a = true) :
    a.le (infinite false) = true := by
  cases a with
  | finite q => rfl
  | infinite s => cases s <;> rfl
  | nan => cases h

theorem le_trans {a b c : ExactNumber} (hab : a.le b = true) (hbc : b.le c = true) :
    a.le c = true := by
  cases a <;> cases b <;> cases c
  case finite.finite.finite =>
    rw [finite_le] at *
    exact hab.trans hbc
  all_goals grind [le, lt, eq]

/-- The greater of zero and a number, between zero and a bound. -/
theorem max_zero_between {a bound : ExactNumber} (hbound : (finite 0).le bound = true)
    (h : (finite 0).lt a = true → a.le bound = true) :
    (finite 0).le ((finite 0).max a) = true ∧ ((finite 0).max a).le bound = true := by
  rw [max]
  split
  · rename_i hpos
    exact ⟨by rw [le, hpos, Bool.true_or], h hpos⟩
  · exact ⟨by simp [le, eq], hbound⟩

end ExactNumber

/-! ### Values -/

/-- A **value** of running code. -/
inductive Value where
  | nil
  | bool (b : Bool)
  | number (n : ExactNumber)
  | str (s : String)
  /-- A table, known by its address. -/
  | table (address : ℕ)
  /-- A function of the game, known by the path that names it. -/
  | native (name : String)
  /-- A function of generated code. It keeps the local variables that are visible where it
  is made, with the values that they have there: no generated code assigns to a variable
  after a function has captured it. -/
  | closure (params : List String) (body : Block) (captured : List (String × Value))
  /-- What a loop goes through: a key and a value at a time. -/
  | entries (items : List (Value × Value))

namespace Value

/-- Does the value count as true? All do but `nil` and `false`. -/
def truthy : Value → Bool
  | nil | bool false => false
  | _ => true

/-- Is the value `nil`? -/
def isNil : Value → Bool
  | nil => true
  | _ => false

/-- Are the values equal? Tables are equal only to themselves. Functions are never compared
by generated code, and count as different. -/
def same : Value → Value → Bool
  | nil, nil => true
  | bool a, bool b => a == b
  | number a, number b => a.eq b
  | str a, str b => a == b
  | table a, table b => a == b
  | native a, native b => a == b
  | _, _ => false

theorem same_bool {v : Value} {b : Bool} : v.same (.bool b) = true ↔ v = .bool b := by
  cases v <;> simp [same]

theorem same_str {v : Value} {t : String} : v.same (.str t) = true ↔ v = .str t := by
  cases v <;> simp [same]

@[simp] theorem truthy_nil : nil.truthy = false := rfl

@[simp] theorem truthy_bool (b : Bool) : (bool b).truthy = b := by cases b <;> rfl

@[simp] theorem truthy_number (n : ExactNumber) : (number n).truthy = true := rfl

end Value

/-! ### Operators -/

/-- What a binary operator makes of two numbers, if it computes with numbers. -/
def BinaryOp.onNumbers? : BinaryOp → Option (ExactNumber → ExactNumber → Value)
  | .add => some fun a b => .number (a.add b)
  | .sub => some fun a b => .number (a.sub b)
  | .mul => some fun a b => .number (a.mul b)
  | .div => some fun a b => .number (a.div b)
  | .lt => some fun a b => .bool (a.lt b)
  | .le => some fun a b => .bool (a.le b)
  | .gt => some fun a b => .bool (b.lt a)
  | .ge => some fun a b => .bool (b.le a)
  | .or | .and | .eq | .ne | .concat => none

/-- The result of a binary operator that evaluates both operands. Operands of a wrong kind
are an error. The operators `and` and `or` evaluate the second operand only if they need
it, and are not among these. -/
def BinaryOp.apply : BinaryOp → Value → Value → Option Value
  | .eq, a, b => some (.bool (a.same b))
  | .ne, a, b => some (.bool (!a.same b))
  | .concat, .str a, .str b => some (.str (a ++ b))
  | op, .number a, .number b => op.onNumbers?.map fun f => f a b
  | _, _, _ => none

end Lua

/-! ### Numbers of the model -/

namespace Number

open Lua

/-- The number as an **exact** one. -/
def exact (n : Number) : ExactNumber :=
  if n.isNaN then .nan
  else if n.isFinite then
    .finite ((if n.negative then -1 else 1) * (n.numerator / n.denominator))
  else .infinite n.negative

/-- The exact number that the numeral of a number denotes. NaN is written as zero. -/
def literalValue (n : Number) : ExactNumber := if n.isNaN then .finite 0 else n.exact

end Number

end JokerScript
