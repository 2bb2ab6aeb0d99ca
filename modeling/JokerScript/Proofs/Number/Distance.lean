import Mathlib.Tactic.Linarith
import JokerScript.Proofs.Number.Nearest

/-!
# No Number Is Nearer

The finite numbers lie on grids: those of one unit are the multiples of the unit. Rounding takes
the nearest multiple of the unit that belongs to the order of a quotient. Numbers of a finer unit
are below the order, so that none of them is nearer.

## Main definitions

* `Number.value` — the value of a finite number.
* `Number.IsNearest` — no finite number is nearer to a value.

## Main results

* `Number.isNearest_ofRatio` — the number that a quotient becomes is nearest to it.
* `Number.isNearest_ofInt` — so is the number that an integer becomes.
* `Number.IsNearest.value_eq` — what is the value of a number is kept.
-/

namespace JokerScript

/-! ### The nearest integer -/

theorem roundedQuotient_le {num den n : ℕ} (hden : 0 < den) (h : num ≤ n * den) :
    roundedQuotient num den ≤ n := by
  have hfloor : num / den ≤ n := Nat.div_le_of_le_mul (by rw [mul_comm]; exact h)
  have hsplit := Nat.div_add_mod num den
  rw [roundedQuotient]
  split
  · rename_i hup
    by_contra hlt
    -- Only a quotient of `n` itself has the floor `n`, and it is not rounded up.
    have hn : num / den = n := by omega
    rw [hn] at hsplit
    have hrest : num % den = 0 := by
      have := mul_comm den n
      omega
    simp [hrest, hden.ne'] at hup
  · exact hfloor

/-- Of the two integers around a value, the one on the nearer side is the nearest integer. -/
theorem abs_sub_le_of_half {floor near k : ℤ} {part : ℚ} (hnonneg : 0 ≤ part) (hlt : part < 1)
    (hnear : near = floor ∧ part ≤ 1 / 2 ∨ near = floor + 1 ∧ 1 / 2 ≤ part) :
    |(near : ℚ) - (floor + part)| ≤ |(k : ℚ) - (floor + part)| := by
  have hsides : (k : ℚ) ≤ floor ∨ (floor : ℚ) + 1 ≤ k := by
    rcases le_or_gt k floor with hk | hk
    · exact .inl (by exact_mod_cast hk)
    · exact .inr (by exact_mod_cast hk)
  have hdistance : part ≤ |(k : ℚ) - (floor + part)| ∨ 1 - part ≤ |(k : ℚ) - (floor + part)| := by
    rcases hsides with hk | hk
    · exact .inl (le_abs.mpr (.inr (by linarith)))
    · exact .inr (le_abs.mpr (.inl (by linarith)))
  rcases hnear with ⟨rfl, hhalf⟩ | ⟨rfl, hhalf⟩
  · have habs : |(near : ℚ) - (near + part)| = part := by
      rw [sub_add_cancel_left, abs_neg, abs_of_nonneg hnonneg]
    rcases hdistance with hk | hk <;> linarith
  · have habs : |((floor + 1 : ℤ) : ℚ) - (floor + part)| = 1 - part := by
      push_cast
      rw [add_sub_add_left_eq_sub, abs_of_pos (by linarith)]
    rcases hdistance with hk | hk <;> linarith

/-- **No integer is nearer** to a quotient than the one that it is rounded to. -/
theorem abs_roundedQuotient_sub_le (num : ℕ) {den : ℕ} (hden : 0 < den) (k : ℤ) :
    |(roundedQuotient num den : ℚ) - num / den| ≤ |(k : ℚ) - num / den| := by
  have hden' : (0 : ℚ) < den := by exact_mod_cast hden
  have hquotient : (num : ℚ) / den = ((num / den : ℕ) : ℤ) + ((num % den : ℕ) : ℚ) / den := by
    have hsplit : ((den * (num / den) + num % den : ℕ) : ℚ) = num := by rw [Nat.div_add_mod]
    rw [← hsplit, Int.cast_natCast]
    push_cast
    field_simp
  have hnonneg : 0 ≤ ((num % den : ℕ) : ℚ) / den := by positivity
  have hlt : ((num % den : ℕ) : ℚ) / den < 1 := by
    rw [div_lt_one hden']
    exact_mod_cast Nat.mod_lt num hden
  rw [hquotient]
  refine abs_sub_le_of_half hnonneg hlt ?_
  rw [roundedQuotient, div_le_iff₀ hden', le_div_iff₀ hden']
  split
  · rename_i hup
    have hhalf : den ≤ 2 * (num % den) := by
      rw [Bool.or_eq_true, decide_eq_true_eq, Bool.and_eq_true, beq_iff_eq] at hup
      omega
    have hhalf' : (den : ℚ) ≤ 2 * (num % den : ℕ) := by exact_mod_cast hhalf
    exact .inr ⟨by push_cast; rfl, by linarith⟩
  · rename_i hdown
    have hhalf : 2 * (num % den) ≤ den := by
      rw [Bool.or_eq_true, decide_eq_true_eq, not_or] at hdown
      omega
    have hhalf' : 2 * ((num % den : ℕ) : ℚ) ≤ den := by exact_mod_cast hhalf
    exact .inl ⟨rfl, by linarith⟩

namespace Number

/-! ### Values -/

/-- The value of a finite number. -/
def value (n : Number) : ℚ := (if n.negative then -1 else 1) * (n.numerator / n.denominator)

/-- **No finite number is nearer** to the value. -/
structure IsNearest (n : Number) (q : ℚ) : Prop where
  isFinite : n.isFinite = true
  le : ∀ m : Number, m.isFinite = true → |n.value - q| ≤ |m.value - q|

/-- What is the value of a finite number is the value of the nearest one. -/
theorem IsNearest.value_eq {n m : Number} {q : ℚ} (h : n.IsNearest q) (hm : m.isFinite = true)
    (hq : m.value = q) : n.value = q := by
  have hle := h.le m hm
  rw [hq, sub_self, abs_zero, abs_nonpos_iff, sub_eq_zero] at hle
  exact hle

theorem scale_ge (n : Number) : -1074 ≤ n.scale := by
  rw [scale]
  omega

/-- The fields of a number with a finite code. -/
theorem fields_ofCode (negative : Bool) {code : ℕ} (h : code < 2047 * 0x10000000000000) :
    (ofCode negative code).negative = negative ∧
      (ofCode negative code).exponent.val = code / 0x10000000000000 ∧
      (ofCode negative code).fraction.val = code % 0x10000000000000 := by
  rw [ofCode, dif_pos h]
  exact ⟨rfl, rfl, rfl⟩

theorem lt_of_isFinite_ofCode {negative : Bool} {code : ℕ}
    (h : (ofCode negative code).isFinite = true) : code < 2047 * 0x10000000000000 := by
  by_contra hlarge
  rw [ofCode, dif_neg hlarge] at h
  cases h

/-- A number that is made of a unit and a significand has the magnitude that they say, also where
the significand has been rounded up to the next power of two. -/
theorem magnitude_ofCode {negative : Bool} {unit : ℤ} {sig : ℕ} (hunit : -1074 ≤ unit)
    (hlow : unit = -1074 ∨ 2 ^ 52 ≤ sig) (hhigh : sig ≤ 2 ^ 53)
    (h : (unit + 1074).toNat * 0x10000000000000 + sig < 2047 * 0x10000000000000) {n : Number}
    (hn : n = ofCode negative ((unit + 1074).toNat * 0x10000000000000 + sig)) :
    (n.numerator : ℚ) / n.denominator = sig * (2 : ℚ) ^ unit := by
  obtain ⟨-, hexponent, hfraction⟩ := fields_ofCode negative h
  rw [← hn] at hexponent hfraction
  rw [numerator_div_denominator]
  rcases lt_or_ge sig (2 ^ 52) with hsub | hnormal
  · have hscale : n.scale = unit := by
      rw [scale]
      omega
    have hsig : n.significand = sig := by
      rw [significand, if_pos (by omega)]
      omega
    rw [hscale, hsig]
  · rcases Nat.lt_or_ge sig (2 ^ 53) with hlt | hge
    · have hscale : n.scale = unit := by
        rw [scale]
        omega
      have hsig : n.significand = sig := by
        rw [significand, if_neg (by omega)]
        omega
      rw [hscale, hsig]
    · have hscale : n.scale = unit + 1 := by
        rw [scale]
        omega
      have hsig : n.significand = 2 ^ 52 := by
        rw [significand, if_neg (by omega)]
        omega
      have hpower : sig = 2 ^ 53 := by omega
      rw [hscale, hsig, hpower, zpow_add_one₀ (by norm_num)]
      push_cast
      ring

/-! ### Grids -/

section Grid

variable {num den : ℕ} {unit : ℤ}

/-- A quotient, told in a unit. -/
theorem div_unit (num den : ℕ) (unit : ℤ) :
    ((num * 2 ^ (-unit).toNat : ℕ) : ℚ) / (den * 2 ^ unit.toNat : ℕ) = num / den / 2 ^ unit := by
  have hpow := zpow_eq_div 2 (by omega) unit
  push_cast at hpow ⊢
  rw [hpow]
  field_simp

/-- **No multiple of the unit is nearer** to a quotient than the one that it is rounded to. -/
theorem abs_grid_sub_le (hden : 0 < den) (unit k : ℤ) :
    |roundedQuotient (num * 2 ^ (-unit).toNat) (den * 2 ^ unit.toNat) * (2 : ℚ) ^ unit -
        num / den| ≤ |(k : ℚ) * 2 ^ unit - num / den| := by
  have hpos : (0 : ℚ) < 2 ^ unit := by positivity
  have hscaled (y : ℚ) : |y * 2 ^ unit - num / den| = |y - num / den / 2 ^ unit| * 2 ^ unit := by
    rw [← abs_of_pos hpos, ← abs_mul, abs_of_pos hpos, sub_mul, div_mul_cancel₀ _ hpos.ne']
  have hden' : 0 < den * 2 ^ unit.toNat := by positivity
  have hround := abs_roundedQuotient_sub_le (num * 2 ^ (-unit).toNat) hden' k
  rw [div_unit] at hround
  rw [hscaled, hscaled]
  exact mul_le_mul_of_nonneg_right hround hpos.le

/-- The unit in which a quotient is rounded, and the significand that it is rounded to. -/
theorem bounds_of_pos (hnum : 0 < num) (hden : 0 < den)
    (hunit : unit = max (binaryOrder num den - 52) (-1074)) :
    (unit = -1074 ∨ (2 : ℚ) ^ (unit + 52) ≤ num / den) ∧ (num : ℚ) / den < 2 ^ (unit + 53) := by
  have hq : (0 : ℚ) < num / den := by positivity
  rw [binaryOrder_eq_log hnum hden] at hunit
  constructor
  · rcases max_choice (Int.log 2 ((num : ℚ) / den) - 52) (-1074) with hmax | hmax
    · refine .inr ?_
      have horder : unit + 52 = Int.log 2 ((num : ℚ) / den) := by omega
      rw [horder]
      exact_mod_cast Int.zpow_log_le_self (b := 2) (by omega) hq
    · exact .inl (by omega)
  · calc (num : ℚ) / den < ((2 : ℕ) : ℚ) ^ (Int.log 2 ((num : ℚ) / den) + 1) :=
          Int.lt_zpow_succ_log_self (by omega) _
      _ ≤ 2 ^ (unit + 53) := by
          push_cast
          exact zpow_le_zpow_right₀ (by norm_num) (by omega)

/-- The significand of a rounded quotient is normal, except in the least unit. -/
theorem significand_bounds (hnum : 0 < num) (hden : 0 < den)
    (hunit : unit = max (binaryOrder num den - 52) (-1074)) :
    (unit = -1074 ∨
        2 ^ 52 ≤ roundedQuotient (num * 2 ^ (-unit).toNat) (den * 2 ^ unit.toNat)) ∧
      roundedQuotient (num * 2 ^ (-unit).toNat) (den * 2 ^ unit.toNat) ≤ 2 ^ 53 := by
  obtain ⟨hlow, hhigh⟩ := bounds_of_pos hnum hden hunit
  have hpos : (0 : ℚ) < 2 ^ unit := by positivity
  have hden' : 0 < den * 2 ^ unit.toNat := by positivity
  have hden'' : (0 : ℚ) < (den * 2 ^ unit.toNat : ℕ) := by exact_mod_cast hden'
  constructor
  · refine hlow.imp_right fun hlow => le_roundedQuotient hden' ?_
    have hle : ((2 ^ 52 : ℕ) : ℚ) ≤
        ((num * 2 ^ (-unit).toNat : ℕ) : ℚ) / (den * 2 ^ unit.toNat : ℕ) := by
      rw [div_unit, le_div_iff₀ hpos]
      rw [zpow_add₀ (by norm_num)] at hlow
      push_cast
      linarith
    rw [le_div_iff₀ hden''] at hle
    exact_mod_cast hle
  · refine roundedQuotient_le hden' ?_
    have hle : ((num * 2 ^ (-unit).toNat : ℕ) : ℚ) / (den * 2 ^ unit.toNat : ℕ) ≤
        ((2 ^ 53 : ℕ) : ℚ) := by
      rw [div_unit, div_le_iff₀ hpos]
      rw [zpow_add₀ (by norm_num)] at hhigh
      push_cast
      linarith
    rw [div_le_iff₀ hden''] at hle
    exact_mod_cast hle

/-- **No number is nearer** to a quotient than the one that it is rounded to, whatever the sign of
the number is. -/
theorem abs_rounded_sub_le (hnum : 0 < num) (hden : 0 < den)
    (hunit : unit = max (binaryOrder num den - 52) (-1074)) {z e : ℤ} (hz : |z| < 2 ^ 53)
    (he : -1074 ≤ e) :
    |roundedQuotient (num * 2 ^ (-unit).toNat) (den * 2 ^ unit.toNat) * (2 : ℚ) ^ unit -
        num / den| ≤ |(z : ℚ) * 2 ^ e - num / den| := by
  rcases le_or_gt unit e with hcoarse | hfine
  · -- A multiple of a coarser unit is a multiple of this one.
    have hmultiple : (z : ℚ) * 2 ^ e = ((z * 2 ^ (e - unit).toNat : ℤ) : ℚ) * 2 ^ unit := by
      push_cast
      rw [mul_assoc, ← zpow_natCast, ← zpow_add₀ (by norm_num)]
      congr 2
      omega
    rw [hmultiple]
    exact abs_grid_sub_le hden unit _
  · -- What has a finer unit is below the order of the quotient, which is a multiple of the unit.
    obtain ⟨hlow, -⟩ := bounds_of_pos hnum hden hunit
    have hlow : (2 : ℚ) ^ (unit + 52) ≤ num / den := hlow.resolve_left (by omega)
    have hbelow : (z : ℚ) * 2 ^ e ≤ 2 ^ (unit + 52) := by
      have hz' : (z : ℚ) ≤ 2 ^ (53 : ℤ) := by
        have := (le_abs_self z).trans hz.le
        exact_mod_cast this
      calc (z : ℚ) * 2 ^ e ≤ 2 ^ (53 : ℤ) * 2 ^ e :=
            mul_le_mul_of_nonneg_right hz' (by positivity)
        _ = 2 ^ (e + 53) := by rw [add_comm, zpow_add₀ (by norm_num)]
        _ ≤ 2 ^ (unit + 52) := zpow_le_zpow_right₀ (by norm_num) (by omega)
    have hpower : (2 : ℚ) ^ (unit + 52) = ((2 ^ 52 : ℤ) : ℚ) * 2 ^ unit := by
      rw [add_comm, zpow_add₀ (by norm_num)]
      push_cast
      norm_num
    calc |roundedQuotient (num * 2 ^ (-unit).toNat) (den * 2 ^ unit.toNat) * (2 : ℚ) ^ unit -
          num / den|
        ≤ |((2 ^ 52 : ℤ) : ℚ) * 2 ^ unit - num / den| := abs_grid_sub_le hden unit _
      _ = num / den - 2 ^ (unit + 52) := by
          rw [← hpower, abs_of_nonpos (by linarith)]
          ring
      _ ≤ |(z : ℚ) * 2 ^ e - num / den| := le_abs.mpr (.inr (by linarith))

end Grid

/-! ### The nearest number -/

/-- The value of a number is a multiple of its unit. -/
theorem exists_value_eq (n : Number) :
    ∃ z : ℤ, |z| < 2 ^ 53 ∧ n.value = z * (2 : ℚ) ^ n.scale := by
  have hlt : (n.significand : ℤ) < 2 ^ 53 := by exact_mod_cast n.significand_lt
  rw [value, numerator_div_denominator]
  cases n.negative with
  | true => exact ⟨-n.significand, abs_lt.mpr ⟨by omega, by omega⟩, by push_cast; simp⟩
  | false => exact ⟨n.significand, abs_lt.mpr ⟨by omega, by omega⟩, by push_cast; simp⟩

/-- The value of a rounded quotient. -/
theorem value_ofRatio (negative : Bool) {num den : ℕ} (hnum : 0 < num) (hden : 0 < den)
    (h : (ofRatio negative num den).isFinite = true) {unit : ℤ}
    (hunit : unit = max (binaryOrder num den - 52) (-1074)) :
    (ofRatio negative num den).value = (if negative then -1 else 1) *
      (roundedQuotient (num * 2 ^ (-unit).toNat) (den * 2 ^ unit.toNat) * (2 : ℚ) ^ unit) := by
  obtain ⟨hlow, hhigh⟩ := significand_bounds hnum hden hunit
  have hcode : ofRatio negative num den = ofCode negative ((unit + 1074).toNat *
      0x10000000000000 + roundedQuotient (num * 2 ^ (-unit).toNat) (den * 2 ^ unit.toNat)) := by
    rw [ofRatio_of_pos negative hnum, hunit]
  have hlt := lt_of_isFinite_ofCode (hcode ▸ h)
  rw [value, magnitude_ofCode (by omega) hlow hhigh hlt hcode, hcode, (fields_ofCode _ hlt).1]

/-- **A quotient becomes the number nearest to it**, unless it becomes infinite. -/
theorem isNearest_ofRatio (negative : Bool) {num den : ℕ} (hden : 0 < den)
    (h : (ofRatio negative num den).isFinite = true) :
    (ofRatio negative num den).IsNearest ((if negative then -1 else 1) * (num / den)) := by
  refine ⟨h, fun m _ => ?_⟩
  rcases Nat.eq_zero_or_pos num with rfl | hnum
  · have hsignificand : (zero negative).significand = 0 := rfl
    have hzero : (ofRatio negative 0 den).value = 0 := by
      rw [ofRatio_zero, value, numerator, hsignificand, Nat.zero_mul, Nat.cast_zero, zero_div,
        mul_zero]
    rw [hzero]
    simp
  · obtain ⟨z, hz, hvalue⟩ := m.exists_value_eq
    rw [value_ofRatio negative hnum hden h rfl, hvalue]
    cases negative with
    | false =>
        simp only [Bool.false_eq_true, if_false, one_mul]
        exact abs_rounded_sub_le hnum hden rfl hz m.scale_ge
    | true =>
        -- The distances are those of the opposite numbers.
        have hopposite (x y : ℚ) : |-1 * x - -1 * y| = |x - y| := by
          rw [← mul_sub, abs_mul, abs_neg, abs_one, one_mul]
        have hz' : z * (2 : ℚ) ^ m.scale = -1 * (((-z : ℤ) : ℚ) * 2 ^ m.scale) := by
          push_cast
          ring
        simp only [if_true]
        rw [hz', hopposite, hopposite]
        exact abs_rounded_sub_le hnum hden rfl (by rwa [abs_neg]) m.scale_ge

theorem isFinite_ofCode {negative : Bool} {code : ℕ} (h : code < 2047 * 0x10000000000000) :
    (ofCode negative code).isFinite = true := by
  obtain ⟨-, hexponent, -⟩ := fields_ofCode negative h
  rw [isFinite, decide_eq_true_eq, hexponent]
  omega

/-- An integer below half of the infinite ones becomes a finite number. -/
theorem isFinite_ofInt {i : ℤ} (h : i.natAbs < 2 ^ 1023) : (ofInt i).isFinite = true := by
  rw [ofInt]
  rcases Nat.eq_zero_or_pos i.natAbs with hzero | hpos
  · rw [hzero, ofRatio_zero]
    rfl
  · obtain ⟨unit, hunit⟩ : ∃ unit, unit = max (binaryOrder i.natAbs 1 - 52) (-1074) := ⟨_, rfl⟩
    have hq : (0 : ℚ) < (i.natAbs : ℚ) / (1 : ℕ) :=
      div_pos (Nat.cast_pos.mpr hpos) (Nat.cast_pos.mpr Nat.one_pos)
    have horder : binaryOrder i.natAbs 1 < 1023 := by
      rw [binaryOrder_eq_log hpos Nat.one_pos, ← Int.lt_zpow_iff_log_lt Nat.one_lt_two hq,
        Nat.cast_one, div_one]
      exact_mod_cast h
    obtain ⟨-, hhigh⟩ := significand_bounds hpos (by omega) hunit
    rw [ofRatio_of_pos _ hpos, ← hunit]
    clear h hq
    exact isFinite_ofCode (by omega)

/-- **An integer becomes the number nearest to it.** -/
theorem isNearest_ofInt {i : ℤ} (h : i.natAbs < 2 ^ 1023) : (ofInt i).IsNearest i := by
  have hnearest := isNearest_ofRatio (i < 0) Nat.one_pos (isFinite_ofInt h)
  have hvalue : (if decide (i < 0) then -1 else 1) * ((i.natAbs : ℚ) / (1 : ℕ)) = i := by
    rw [Nat.cast_one, div_one, ← Int.cast_natCast]
    rcases lt_or_ge i 0 with hneg | hpos
    · rw [decide_eq_true hneg, if_pos rfl, Int.natCast_natAbs, abs_of_neg hneg]
      push_cast
      ring
    · rw [decide_eq_false (by omega), if_neg Bool.false_ne_true, Int.natCast_natAbs,
        abs_of_nonneg hpos, one_mul]
  rw [hvalue] at hnearest
  exact hnearest

end Number

end JokerScript
