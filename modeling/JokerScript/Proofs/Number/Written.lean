import JokerScript.Number.Text
import JokerScript.Proofs.Number.Nearest

/-!
# Written Numbers Read Back

The decimal that is written for a finite number is the shortest that reads back as the number.
The search for it tests what it finds, and where it finds nothing the decimal expansion stands in,
which has exactly the value of the number.

## Main results

* `Number.readsBack_shortest` — the decimal that is written for a finite number.
* `digitsValue_digitChars`, `exists_digitChars_eq_cons` — digits of a natural number.
-/

namespace JokerScript

namespace Number

variable {n : Number} {tie : TieRule}

/-! ### Decimals -/

/-- A zero has its sign and nothing else. -/
theorem eq_zero_of_isZero (h : n.isZero = true) : n = zero n.negative := by
  obtain ⟨negative, exponent, fraction⟩ := n
  simp only [isZero, Bool.and_eq_true, beq_iff_eq, Fin.val_eq_zero_iff] at h
  obtain ⟨rfl, rfl⟩ := h
  rfl

/-- A decimal that has the value of a number is read as that number. -/
theorem ofDecimal_of_value (h : n.isFinite = true) {c : ℕ} {e : ℤ}
    (hvalue : (c : ℚ) * 10 ^ e = n.numerator / n.denominator) :
    ofDecimal n.negative c e = n := by
  have hpow := zpow_eq_div 10 (by omega) e
  push_cast at hpow
  have hden : (n.denominator : ℚ) ≠ 0 := by exact_mod_cast n.denominator_pos.ne'
  rw [hpow, ← mul_div_assoc, div_eq_div_iff (by positivity) hden] at hvalue
  calc ofDecimal n.negative c e
      = ofRatio n.negative (c * 10 ^ e.toNat) (10 ^ (-e).toNat) := ofDecimal_eq_ofRatio _ c e
    _ = ofRatio n.negative n.numerator n.denominator :=
        ofRatio_congr _ (by positivity) n.denominator_pos (by exact_mod_cast hvalue)
    _ = n := ofRatio_value h

/-- **The decimal expansion of a finite number reads back.** -/
theorem readsBack_exactDecimal (h : n.isFinite = true) : n.readsBack n.exactDecimal = true := by
  rw [readsBack, beq_iff_eq, exactDecimal]
  split
  · rename_i hscale
    refine ofDecimal_of_value h ?_
    have hden : n.denominator = 1 := by
      rw [denominator, Int.toNat_of_nonpos (by omega)]
    rw [hden, Nat.cast_one, zpow_zero, mul_one, div_one]
  · rename_i hscale
    refine ofDecimal_of_value h ?_
    obtain ⟨k, hk⟩ : ∃ k : ℕ, n.scale = -k := ⟨(-n.scale).toNat, by omega⟩
    rw [numerator_div_denominator, hk, neg_neg, Int.toNat_natCast, Nat.pow_eq, zpow_neg, zpow_neg,
      zpow_natCast, zpow_natCast]
    have hten : (10 : ℚ) ^ k = 2 ^ k * 5 ^ k := by
      rw [← mul_pow]
      norm_num
    rw [hten]
    push_cast
    field_simp

theorem readsBack_decimalOfLength? {count : ℕ} {d : Decimal}
    (h : n.decimalOfLength? tie count = some d) : n.readsBack d = true := by
  simp only [decimalOfLength?] at h
  split at h
  · rename_i hbelow habove
    obtain rfl := Option.some.inj h
    split <;> assumption
  · exact Option.some.inj h ▸ ‹_›
  · exact Option.some.inj h ▸ ‹_›
  · cases h

/-- **The shortest decimal of a finite number reads back.** -/
theorem readsBack_shortest (tie : TieRule) (h : n.isFinite = true) :
    n.readsBack (n.shortest tie) = true := by
  rw [shortest]
  split
  · rename_i hzero
    rw [readsBack, beq_iff_eq, eq_zero_of_isZero hzero]
    rfl
  · cases hfound : (List.range 17).findSome? fun i => n.decimalOfLength? tie (i + 1) with
    | none => exact readsBack_exactDecimal h
    | some d =>
        obtain ⟨i, -, hi⟩ := List.exists_of_findSome?_eq_some hfound
        exact readsBack_decimalOfLength? hi

/-- The number that the shortest decimal is read as. -/
theorem ofDecimal_shortest (tie : TieRule) (h : n.isFinite = true) :
    ofDecimal n.negative (n.shortest tie).coefficient (n.shortest tie).exponent = n :=
  beq_iff_eq.mp (readsBack_shortest tie h)

/-- Only zeros have a decimal without digits. -/
theorem coefficient_shortest_pos (tie : TieRule) (h : n.isFinite = true)
    (hzero : n.isZero = false) : 0 < (n.shortest tie).coefficient := by
  refine Nat.pos_of_ne_zero fun hcoefficient => ?_
  have hread := ofDecimal_shortest tie h
  rw [hcoefficient] at hread
  rw [← hread] at hzero
  simp [ofDecimal, zero, isZero] at hzero

/-! ### Digits -/

theorem digitsValue_append (acc : ℕ) (xs ys : List Char) :
    digitsValue acc (xs ++ ys) = digitsValue (digitsValue acc xs) ys :=
  List.foldl_append

theorem digitsValue_replicate_zero (acc k : ℕ) :
    digitsValue acc (List.replicate k '0') = acc * 10 ^ k := by
  induction k generalizing acc with
  | zero => exact (mul_one acc).symm
  | succ k ih =>
      calc digitsValue acc (List.replicate (k + 1) '0')
          = digitsValue (10 * acc + 0) (List.replicate k '0') := rfl
        _ = acc * 10 ^ (k + 1) := by rw [ih]; ring

@[simp] theorem digitsValue_digitChars (k : ℕ) : digitsValue 0 (digitChars k) = k :=
  Nat.ofDigitChars_ten_toDigits

end Number

theorem digitChars_ne_nil (k : ℕ) : digitChars k ≠ [] := Nat.toDigits_ne_nil

theorem isDigit_of_mem_digitChars {k : ℕ} {c : Char} (h : c ∈ digitChars k) : c.isDigit = true :=
  Nat.isDigit_of_mem_toDigits (by omega) (by omega) h

/-- The digits of a positive number do not begin with a zero. -/
theorem exists_digitChars_eq_cons {k : ℕ} (hk : 0 < k) :
    ∃ d rest, digitChars k = d :: rest ∧ d ≠ '0' := by
  induction k using Nat.strongRecOn with
  | ind k ih =>
      rw [digitChars, Nat.toDigits_eq_if (by omega)]
      split
      · rename_i hlt
        have hne : ∀ d < 10, 0 < d → Nat.digitChar d ≠ '0' := by decide
        exact ⟨_, [], rfl, hne k hlt hk⟩
      · obtain ⟨d, rest, hdigits, hd⟩ := ih (k / 10) (by omega) (by omega)
        rw [digitChars] at hdigits
        exact ⟨d, rest ++ [(k % 10).digitChar], by rw [hdigits, List.cons_append], hd⟩

/-- The digits at the head of a text. -/
theorem span_isDigit_append {digits rest : List Char} (hdigits : ∀ c ∈ digits, c.isDigit = true)
    (hrest : ∀ c ∈ rest.head?, c.isDigit = false) :
    (digits ++ rest).span Char.isDigit = (digits, rest) := by
  have htake : rest.takeWhile Char.isDigit = [] := by
    cases rest with
    | nil => rfl
    | cons c rest => simp [hrest c rfl]
  have hdrop : rest.dropWhile Char.isDigit = rest := by
    cases rest with
    | nil => rfl
    | cons c rest => simp [hrest c rfl]
  rw [List.span_eq_takeWhile_dropWhile, List.takeWhile_append_of_pos hdigits,
    List.dropWhile_append_of_pos hdigits, htake, hdrop, List.append_nil]

end JokerScript
