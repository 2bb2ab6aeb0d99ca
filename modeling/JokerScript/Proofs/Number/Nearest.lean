import Mathlib.Algebra.Order.Field.Power
import Mathlib.Data.Int.Log
import Mathlib.Data.Rat.Floor
import Mathlib.Tactic.Positivity
import Mathlib.Tactic.Qify
import Mathlib.Tactic.Ring
import JokerScript.Number.Rounding

/-!
# The Number Nearest to a Quotient

The number nearest to a quotient is a matter of its value alone: two quotients of one value have
one nearest number, and the number nearest to the value of a number is that number. So a decimal
may be written in any way without being read as another number.

## Main results

* `Number.ofRatio_congr` — quotients of one value.
* `Number.ofRatio_value` — the value of a number.
* `Number.ofDecimal_eq_ofRatio` — a decimal is a quotient, also where its exponent is far outside
  the format.
-/

namespace JokerScript

/-! ### Powers -/

/-- A power with an integer exponent as a quotient of powers with natural ones. -/
theorem zpow_eq_div (b : ℕ) (hb : 0 < b) (e : ℤ) :
    (b : ℚ) ^ e = (b ^ e.toNat : ℕ) / (b ^ (-e).toNat : ℕ) := by
  have hne : (b : ℚ) ≠ 0 := by positivity
  push_cast
  rw [← zpow_natCast, ← zpow_natCast, ← zpow_sub₀ hne]
  congr 1
  omega

/-- A power of two is at most a quotient. -/
theorem two_zpow_le_div_iff {num den : ℕ} (hden : 0 < den) (e : ℤ) :
    (2 : ℚ) ^ e ≤ num / den ↔ den * 2 ^ e.toNat ≤ num * 2 ^ (-e).toNat := by
  have hpow := zpow_eq_div 2 (by omega) e
  push_cast at hpow
  rw [hpow, div_le_div_iff₀ (by positivity) (by positivity)]
  have hcast : (2 : ℚ) ^ e.toNat * den ≤ num * 2 ^ (-e).toNat ↔
      2 ^ e.toNat * den ≤ num * 2 ^ (-e).toNat := by norm_cast
  rw [hcast, mul_comm den]

/-! ### Rounding to an integer -/

section Rounding

variable {num den num' den' : ℕ}

theorem roundedQuotient_mul_left {k : ℕ} (hk : 0 < k) (num den : ℕ) :
    roundedQuotient (k * num) (k * den) = roundedQuotient num den := by
  have hlt : (k * den < 2 * (k * (num % den))) ↔ den < 2 * (num % den) := by
    rw [Nat.mul_left_comm]
    exact Nat.mul_lt_mul_left hk
  have heq : (k * den = 2 * (k * (num % den))) ↔ den = 2 * (num % den) := by
    rw [Nat.mul_left_comm]
    exact Nat.mul_right_inj hk.ne'
  simp only [roundedQuotient, Nat.mul_div_mul_left _ _ hk, Nat.mul_mod_mul_left,
    Bool.or_eq_true, Bool.and_eq_true, decide_eq_true_eq, beq_iff_eq, hlt, heq]

/-- Quotients of one value are rounded alike. -/
theorem roundedQuotient_congr (hden : 0 < den) (hden' : 0 < den')
    (h : num * den' = num' * den) : roundedQuotient num den = roundedQuotient num' den' := by
  calc roundedQuotient num den
      = roundedQuotient (den' * num) (den' * den) := (roundedQuotient_mul_left hden' _ _).symm
    _ = roundedQuotient (den * num') (den * den') := by
        rw [mul_comm den' num, h, mul_comm num', mul_comm den' den]
    _ = roundedQuotient num' den' := roundedQuotient_mul_left hden _ _

/-- An integer is rounded to itself. -/
theorem roundedQuotient_mul_self (n : ℕ) (hden : 0 < den) : roundedQuotient (n * den) den = n := by
  simp [roundedQuotient, Nat.mul_div_cancel _ hden, hden.ne']

theorem le_roundedQuotient {n : ℕ} (hden : 0 < den) (h : n * den ≤ num) :
    n ≤ roundedQuotient num den := by
  have hfloor : n ≤ num / den := (Nat.le_div_iff_mul_le hden).mpr h
  rw [roundedQuotient]
  split <;> omega

/-- A quotient below one half is rounded to zero. -/
theorem roundedQuotient_eq_zero (h : 2 * num < den) : roundedQuotient num den = 0 := by
  have hlt : num < den := by omega
  have hnot : ¬(den < 2 * num) := by omega
  simp [roundedQuotient, Nat.div_eq_of_lt hlt, Nat.mod_eq_of_lt hlt, hnot]

end Rounding

namespace Number

/-! ### Quotients -/

section Quotients

variable {num den num' den' : ℕ}

/-- The **binary order** of a quotient is the logarithm of its value, rounded down. -/
theorem binaryOrder_eq_log (hnum : 0 < num) (hden : 0 < den) :
    binaryOrder num den = Int.log 2 ((num : ℚ) / den) := by
  have hq : (0 : ℚ) < num / den := by positivity
  let e : ℤ := (num.log2 : ℤ) - den.log2
  have hnumLe : (2 : ℚ) ^ num.log2 ≤ num := by exact_mod_cast Nat.log2_self_le hnum.ne'
  have hnumLt : (num : ℚ) < 2 ^ (num.log2 + 1) := by exact_mod_cast Nat.lt_log2_self
  have hdenLe : (2 : ℚ) ^ den.log2 ≤ den := by exact_mod_cast Nat.log2_self_le hden.ne'
  have hdenLt : (den : ℚ) < 2 ^ (den.log2 + 1) := by exact_mod_cast Nat.lt_log2_self
  -- The quotient lies between the powers next to the one of the difference of the orders.
  have habove : Int.log 2 ((num : ℚ) / den) < e + 1 := by
    rw [← Int.lt_zpow_iff_log_lt (by omega) hq, div_lt_iff₀ (by positivity)]
    calc (num : ℚ) < 2 ^ (num.log2 + 1) := hnumLt
      _ = (2 : ℚ) ^ (e + 1) * 2 ^ den.log2 := by
          rw [← zpow_natCast, ← zpow_natCast, ← zpow_add₀ (by norm_num)]
          congr 1
          push_cast
          ring
      _ ≤ ((2 : ℕ) : ℚ) ^ (e + 1) * den := by
          push_cast
          exact mul_le_mul_of_nonneg_left hdenLe (by positivity)
  have hbelow : e - 1 ≤ Int.log 2 ((num : ℚ) / den) := by
    rw [← Int.zpow_le_iff_le_log (by omega) hq, le_div_iff₀ (by positivity)]
    calc ((2 : ℕ) : ℚ) ^ (e - 1) * den ≤ (2 : ℚ) ^ (e - 1) * 2 ^ (den.log2 + 1) := by
          push_cast
          exact mul_le_mul_of_nonneg_left hdenLt.le (by positivity)
      _ = 2 ^ num.log2 := by
          rw [← zpow_natCast, ← zpow_natCast, ← zpow_add₀ (by norm_num)]
          congr 1
          push_cast
          ring
      _ ≤ num := hnumLe
  have hself : e ≤ Int.log 2 ((num : ℚ) / den) ↔ den * 2 ^ e.toNat ≤ num * 2 ^ (-e).toNat := by
    rw [← Int.zpow_le_iff_le_log (by omega) hq]
    exact two_zpow_le_div_iff hden e
  rw [binaryOrder]
  split
  · rename_i h
    exact le_antisymm (hself.mpr h) (by omega)
  · rename_i h
    exact le_antisymm hbelow (by have := mt hself.mp h; omega)

theorem ofRatio_zero (negative : Bool) (den : ℕ) : ofRatio negative 0 den = zero negative :=
  if_pos rfl

/-- The significand and the unit of the number nearest to a quotient. -/
theorem ofRatio_of_pos (negative : Bool) (hnum : 0 < num) :
    ofRatio negative num den =
      let unit : ℤ := max (binaryOrder num den - 52) (-1074)
      ofCode negative ((unit + 1074).toNat * 0x10000000000000 +
        roundedQuotient (num * 2 ^ (-unit).toNat) (den * 2 ^ unit.toNat)) :=
  if_neg hnum.ne'

/-- **Quotients of one value have one nearest number.** -/
theorem ofRatio_congr (negative : Bool) (hden : 0 < den) (hden' : 0 < den')
    (h : num * den' = num' * den) : ofRatio negative num den = ofRatio negative num' den' := by
  rcases Nat.eq_zero_or_pos num with rfl | hnum
  · have hzero : num' = 0 := by
      rw [zero_mul] at h
      exact (mul_eq_zero.mp h.symm).resolve_right hden.ne'
    rw [hzero, ofRatio_zero, ofRatio_zero]
  · have hnum' : 0 < num' := by
      have hpos : 0 < num' * den := h ▸ Nat.mul_pos hnum hden'
      exact Nat.pos_of_mul_pos_right hpos
    have hvalue : (num : ℚ) / den = num' / den' := by
      rw [div_eq_div_iff (by positivity) (by positivity)]
      exact_mod_cast h
    have horder : binaryOrder num den = binaryOrder num' den' := by
      rw [binaryOrder_eq_log hnum hden, binaryOrder_eq_log hnum' hden', hvalue]
    rw [ofRatio_of_pos negative hnum, ofRatio_of_pos negative hnum', horder]
    generalize max (binaryOrder num' den' - 52) (-1074) = unit
    have hround : roundedQuotient (num * 2 ^ (-unit).toNat) (den * 2 ^ unit.toNat) =
        roundedQuotient (num' * 2 ^ (-unit).toNat) (den' * 2 ^ unit.toNat) := by
      refine roundedQuotient_congr (by positivity) (by positivity) ?_
      calc num * 2 ^ (-unit).toNat * (den' * 2 ^ unit.toNat)
          = num * den' * (2 ^ (-unit).toNat * 2 ^ unit.toNat) := by ring
        _ = num' * 2 ^ (-unit).toNat * (den * 2 ^ unit.toNat) := by rw [h]; ring
    simp only [hround]

end Quotients

/-! ### The value of a number -/

theorem significand_lt (n : Number) : n.significand < 2 ^ 53 := by
  rw [significand]
  have := n.fraction.isLt
  split <;> omega

theorem denominator_pos (n : Number) : 0 < n.denominator := by
  rw [denominator]
  exact Nat.two_pow_pos _

/-- The magnitude of a finite number is its significand, scaled. -/
theorem numerator_div_denominator (n : Number) :
    (n.numerator : ℚ) / n.denominator = n.significand * (2 : ℚ) ^ n.scale := by
  have hpow := zpow_eq_div 2 (by omega) n.scale
  push_cast at hpow
  rw [hpow, numerator, denominator, Nat.pow_eq, Nat.pow_eq]
  push_cast
  ring

/-- The unit in which the magnitude of a number is an integer is that of its format. -/
theorem unit_eq_scale {n : Number} (hnum : 0 < n.numerator) :
    max (binaryOrder n.numerator n.denominator - 52) (-1074) = n.scale := by
  have hpos : 0 < n.significand := Nat.pos_of_mul_pos_right hnum
  rw [binaryOrder_eq_log hnum n.denominator_pos, numerator_div_denominator]
  have hq : (0 : ℚ) < n.significand * (2 : ℚ) ^ n.scale := by positivity
  have hupper : Int.log 2 ((n.significand : ℚ) * (2 : ℚ) ^ n.scale) < 53 + n.scale := by
    rw [← Int.lt_zpow_iff_log_lt (by omega) hq]
    push_cast
    rw [zpow_add₀ (by norm_num)]
    have hlt : (n.significand : ℚ) < 2 ^ (53 : ℤ) := by
      have := n.significand_lt
      exact_mod_cast this
    exact mul_lt_mul_of_pos_right hlt (by positivity)
  have hscale : n.scale = (max n.exponent.val 1 : ℕ) - 1075 := rfl
  by_cases hzero : n.exponent.val = 0
  · -- A subnormal number has the unit of the format, whatever its order.
    omega
  · have hlower : 52 + n.scale ≤ Int.log 2 ((n.significand : ℚ) * (2 : ℚ) ^ n.scale) := by
      rw [← Int.zpow_le_iff_le_log (by omega) hq]
      push_cast
      rw [zpow_add₀ (by norm_num)]
      have hle : (2 : ℚ) ^ (52 : ℤ) ≤ n.significand := by
        have : 2 ^ 52 ≤ n.significand := by
          rw [significand, if_neg hzero]
          omega
        exact_mod_cast this
      exact mul_le_mul_of_nonneg_right hle (by positivity)
    omega

/-- A finite number has the code of its fields. -/
theorem ofCode_fields {n : Number} (h : n.isFinite = true) :
    ofCode n.negative (n.exponent.val * 0x10000000000000 + n.fraction.val) = n := by
  have hexponent : n.exponent.val < 2047 := of_decide_eq_true h
  have hfraction := n.fraction.isLt
  have hlt : n.exponent.val * 0x10000000000000 + n.fraction.val < 2047 * 0x10000000000000 := by
    omega
  rw [ofCode, dif_pos hlt]
  have hdiv : (n.exponent.val * 0x10000000000000 + n.fraction.val) / 0x10000000000000 =
      n.exponent.val := by omega
  have hmod : (n.exponent.val * 0x10000000000000 + n.fraction.val) % 0x10000000000000 =
      n.fraction.val := by omega
  simp only [hdiv, hmod]

/-- **The number nearest to the value of a number is that number.** -/
theorem ofRatio_value {n : Number} (h : n.isFinite = true) :
    ofRatio n.negative n.numerator n.denominator = n := by
  have hcode := ofCode_fields h
  rcases Nat.eq_zero_or_pos n.numerator with hzero | hnum
  · have hsignificand : n.significand = 0 :=
      (mul_eq_zero.mp hzero).resolve_right (Nat.two_pow_pos _).ne'
    have hexponent : n.exponent.val = 0 := by
      by_contra hne
      rw [significand, if_neg hne] at hsignificand
      omega
    rw [significand, if_pos hexponent] at hsignificand
    rw [hexponent, hsignificand] at hcode
    rw [hzero, ← hcode]
    rfl
  · rw [ofRatio_of_pos n.negative hnum, unit_eq_scale hnum]
    have hround : roundedQuotient (n.numerator * 2 ^ (-n.scale).toNat)
        (n.denominator * 2 ^ n.scale.toNat) = n.significand := by
      have hmul : n.numerator * 2 ^ (-n.scale).toNat =
          n.significand * (n.denominator * 2 ^ n.scale.toNat) := by
        rw [numerator, denominator, Nat.pow_eq, Nat.pow_eq]
        ring
      rw [hmul]
      exact roundedQuotient_mul_self _ (Nat.mul_pos n.denominator_pos (Nat.two_pow_pos _))
    have hfields : (n.scale + 1074).toNat * 0x10000000000000 + n.significand =
        n.exponent.val * 0x10000000000000 + n.fraction.val := by
      have hscale : n.scale = (max n.exponent.val 1 : ℕ) - 1075 := rfl
      rw [significand]
      split <;> omega
    simp only [hround, hfields, hcode]

/-! ### Decimals -/

/-- A large quotient is beyond the finite numbers. -/
theorem ofRatio_of_ge (negative : Bool) {num den k : ℕ} (hden : 0 < den) (hk : 1024 ≤ k)
    (h : den * 2 ^ k ≤ num) : ofRatio negative num den = infinity negative := by
  have hnum : 0 < num := (Nat.mul_pos hden (Nat.two_pow_pos _)).trans_le h
  have hq : (0 : ℚ) < num / den := by positivity
  have horder : k ≤ binaryOrder num den := by
    rw [binaryOrder_eq_log hnum hden, ← Int.zpow_le_iff_le_log (by omega) hq]
    exact (two_zpow_le_div_iff hden k).mpr (by simpa using h)
  rw [ofRatio_of_pos negative hnum]
  generalize hunit : max (binaryOrder num den - 52) (-1074) = unit
  have horderUnit : binaryOrder num den = unit + 52 := by omega
  -- The first digit of the significand stands for the order, so the significand is not small.
  have hsignificand : 2 ^ 52 ≤
      roundedQuotient (num * 2 ^ (-unit).toNat) (den * 2 ^ unit.toNat) := by
    have hpow : (2 : ℚ) ^ (unit + 52) ≤ num / den := by
      have hle := Int.zpow_log_le_self (b := 2) (by omega) hq
      rw [← binaryOrder_eq_log hnum hden, horderUnit] at hle
      exact_mod_cast hle
    have hnat := (two_zpow_le_div_iff hden (unit + 52)).mp hpow
    have hplus : (unit + 52).toNat = unit.toNat + 52 := by omega
    have hminus : (-(unit + 52)).toNat = 0 := by omega
    have hminus' : (-unit).toNat = 0 := by omega
    rw [hplus, hminus, pow_zero, mul_one] at hnat
    refine le_roundedQuotient (by positivity) ?_
    rw [hminus', pow_zero, mul_one]
    calc 2 ^ 52 * (den * 2 ^ unit.toNat) = den * 2 ^ (unit.toNat + 52) := by ring
      _ ≤ num := hnat
  simp only
  rw [ofCode, dif_neg]
  omega

/-- A small quotient is below half of the least number. -/
theorem ofRatio_of_lt (negative : Bool) {num den k : ℕ} (hnum : 0 < num) (hk : 1075 ≤ k)
    (h : num * 2 ^ k < den) : ofRatio negative num den = zero negative := by
  have hden : 0 < den := (Nat.zero_le _).trans_lt h
  have hq : (0 : ℚ) < num / den := by positivity
  have horder : binaryOrder num den < -k := by
    rw [binaryOrder_eq_log hnum hden, ← not_le, ← Int.zpow_le_iff_le_log (by omega) hq]
    intro hle
    have hnat := (two_zpow_le_div_iff hden (-k)).mp hle
    have hplus : (-(k : ℤ)).toNat = 0 := by omega
    have hminus : (- -(k : ℤ)).toNat = k := by omega
    rw [hplus, hminus, pow_zero, mul_one] at hnat
    exact absurd h (not_lt.mpr hnat)
  rw [ofRatio_of_pos negative hnum]
  generalize hunit : max (binaryOrder num den - 52) (-1074) = unit
  have hplus : unit.toNat = 0 := by omega
  have hminus : 1 + (-unit).toNat ≤ k := by omega
  have hround : roundedQuotient (num * 2 ^ (-unit).toNat) (den * 2 ^ unit.toNat) = 0 := by
    rw [hplus, pow_zero, mul_one]
    refine roundedQuotient_eq_zero (lt_of_le_of_lt ?_ h)
    calc 2 * (num * 2 ^ (-unit).toNat) = num * 2 ^ (1 + (-unit).toNat) := by ring
      _ ≤ num * 2 ^ k := Nat.mul_le_mul_left _ (Nat.pow_le_pow_right (by omega) hminus)
  have hcode : (unit + 1074).toNat = 0 := by omega
  simp only [hround, hcode]
  rfl

theorem two_pow_le_ten_pow (k : ℕ) : 2 ^ (3 * k) ≤ 10 ^ k := by
  rw [pow_mul]
  exact Nat.pow_le_pow_left (by omega) k

/-- **A decimal is a quotient of powers of ten**, also where its exponent is settled without
them. -/
theorem ofDecimal_eq_ofRatio (negative : Bool) (digits : ℕ) (exponent : ℤ) :
    ofDecimal negative digits exponent =
      ofRatio negative (digits * 10 ^ exponent.toNat) (10 ^ (-exponent).toNat) := by
  rw [ofDecimal]
  split
  · rename_i hzero
    rw [hzero, zero_mul, ofRatio_zero]
  · rename_i hne
    have hdigits : 0 < digits := Nat.pos_of_ne_zero hne
    split
    · rename_i hlarge
      have hden : (-exponent).toNat = 0 := by omega
      refine (ofRatio_of_ge (k := 3 * exponent.toNat) negative (by positivity) (by omega) ?_).symm
      rw [hden, pow_zero, one_mul]
      exact (two_pow_le_ten_pow _).trans (Nat.le_mul_of_pos_left _ hdigits)
    · split
      · rename_i hsmall
        have hnum : exponent.toNat = 0 := by omega
        obtain ⟨d, hd, hexponent⟩ : ∃ d, 400 < d ∧ (-exponent).toNat = digits.log2 + d :=
          ⟨(-exponent).toNat - digits.log2, by omega, by omega⟩
        refine (ofRatio_of_lt (k := 3 * d - 1) negative (by positivity) (by omega) ?_).symm
        rw [hnum, hexponent, pow_zero, mul_one]
        calc digits * 2 ^ (3 * d - 1) < 2 ^ (digits.log2 + 1) * 2 ^ (3 * d - 1) :=
              Nat.mul_lt_mul_of_pos_right Nat.lt_log2_self (Nat.two_pow_pos _)
          _ = 2 ^ digits.log2 * 2 ^ (3 * d) := by
              rw [← pow_add, ← pow_add]
              congr 1
              omega
          _ ≤ 10 ^ digits.log2 * 10 ^ d :=
              Nat.mul_le_mul (Nat.pow_le_pow_left (by omega) _) (two_pow_le_ten_pow d)
          _ = 10 ^ (digits.log2 + d) := (pow_add _ _ _).symm
      · rfl

/-- Decimals of one value are one number. -/
theorem ofDecimal_congr (negative : Bool) {c c' : ℕ} {e e' : ℤ}
    (h : (c : ℚ) * 10 ^ e = c' * 10 ^ e') :
    ofDecimal negative c e = ofDecimal negative c' e' := by
  rw [ofDecimal_eq_ofRatio, ofDecimal_eq_ofRatio]
  refine ofRatio_congr negative (by positivity) (by positivity) ?_
  have hpow : ∀ x : ℤ, (10 : ℚ) ^ x = 10 ^ x.toNat / 10 ^ (-x).toNat := fun x => by
    have := zpow_eq_div 10 (by omega) x
    push_cast at this
    exact this
  rw [hpow, hpow, ← mul_div_assoc, ← mul_div_assoc,
    div_eq_div_iff (by positivity) (by positivity)] at h
  exact_mod_cast h

end Number

end JokerScript
