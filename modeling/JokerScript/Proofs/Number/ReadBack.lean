import JokerScript.Proofs.Number.Written

/-!
# The Text of a Number

A finite number is written as its sign and a decimal without an exponent. Whether the point
stands behind the digits, inside them or before them, the text has one shape: digits, and perhaps
a point and more digits. The reader takes every text of that shape as the decimal it spells, and
so it reads each finite number back, its sign and the sign of a zero included.

## Main results

* `Decimal.exists_positional_eq` — the shape of a decimal without an exponent.
* `Number.readChars?_chars` — a finite number is read back.
-/

namespace JokerScript

open Number

/-- **The shape of a decimal without an exponent**: some digits, and perhaps a point and more
digits. The digits count as many units of the last place as the decimal is worth. -/
theorem Decimal.exists_positional_eq (d : Decimal) :
    ∃ whole fraction : List Char, whole ≠ [] ∧ (∀ c ∈ whole, c.isDigit = true) ∧
      (∀ c ∈ fraction, c.isDigit = true) ∧
      (d.positional = whole ∧ fraction = [] ∨ d.positional = whole ++ '.' :: fraction) ∧
      (digitsValue 0 (whole ++ fraction) : ℚ) * 10 ^ (-(fraction.length : ℤ)) =
        d.coefficient * 10 ^ d.exponent := by
  obtain ⟨c, e⟩ := d
  have hdigit : ∀ x ∈ digitChars c, x.isDigit = true := fun x hx => isDigit_of_mem_digitChars hx
  have hzeros : ∀ k, ∀ x ∈ List.replicate k '0', x.isDigit = true := by
    intro k x hx
    obtain rfl := List.eq_of_mem_replicate hx
    rfl
  have hne := digitChars_ne_nil c
  have hvalue := digitsValue_digitChars c
  simp only [positional]
  split
  · rename_i hplaces
    obtain ⟨k, rfl⟩ : ∃ k : ℕ, e = k := ⟨e.toNat, by omega⟩
    refine ⟨_, [], ?_, ?_, nofun, .inl ⟨rfl, rfl⟩, ?_⟩
    · simp [hne]
    · exact fun x hx => (List.mem_append.mp hx).elim (hdigit x) (hzeros _ x)
    · rw [List.append_nil, digitsValue_append, hvalue, digitsValue_replicate_zero]
      simp
  · rename_i hplaces
    obtain ⟨places, hplaces, rfl⟩ : ∃ k : ℕ, 0 < k ∧ e = -k := ⟨(-e).toNat, by omega, by omega⟩
    rw [neg_neg, Int.toNat_natCast]
    split
    · rename_i hinside
      refine ⟨_, _, ?_, fun x hx => hdigit x (List.mem_of_mem_take hx),
        fun x hx => hdigit x (List.mem_of_mem_drop hx), .inr rfl, ?_⟩
      · intro htake
        rcases List.take_eq_nil_iff.mp htake with hlength | hnil
        · omega
        · exact hne hnil
      · rw [List.take_append_drop, hvalue, List.length_drop,
          Nat.sub_sub_self (Nat.le_of_lt hinside)]
    · rename_i hbelow
      have hlength : (List.replicate (places - (digitChars c).length) '0' ++ digitChars c).length =
          places := by
        rw [List.length_append, List.length_replicate]
        omega
      refine ⟨['0'], _, List.cons_ne_nil _ _, hzeros 1,
        fun x hx => (List.mem_append.mp hx).elim (hzeros _ x) (hdigit x), .inr rfl, ?_⟩
      have hlead : digitsValue 0 ['0'] = 0 := rfl
      rw [hlength, digitsValue_append, digitsValue_append, hlead, digitsValue_replicate_zero,
        Nat.zero_mul, hvalue]

theorem Decimal.exists_positional_eq_cons (d : Decimal) :
    ∃ c rest, d.positional = c :: rest ∧ c.isDigit = true := by
  obtain ⟨whole, fraction, hne, hwhole, -, htext, -⟩ := d.exists_positional_eq
  obtain ⟨c, rest, rfl⟩ := List.exists_cons_of_ne_nil hne
  have hc := hwhole c List.mem_cons_self
  rcases htext with ⟨htext, -⟩ | htext
  · exact ⟨c, rest, htext, hc⟩
  · exact ⟨c, rest ++ '.' :: fraction, htext, hc⟩

/-- The characters of a decimal without an exponent. -/
theorem Decimal.isDigit_or_eq_of_mem_positional {d : Decimal} {c : Char} (hc : c ∈ d.positional) :
    c.isDigit = true ∨ c = '.' := by
  obtain ⟨whole, fraction, -, hwhole, hfraction, htext, -⟩ := d.exists_positional_eq
  rcases htext with ⟨htext, -⟩ | htext
  · rw [htext] at hc
    exact .inl (hwhole c hc)
  · rw [htext, List.mem_append, List.mem_cons] at hc
    rcases hc with hc | rfl | hc
    · exact .inl (hwhole c hc)
    · exact .inr rfl
    · exact .inl (hfraction c hc)

namespace Number

/-! ### Reading -/

/-- Digits are read as the number they count. -/
theorem readUnsigned?_whole (negative : Bool) {whole : List Char} (hne : whole ≠ [])
    (hwhole : ∀ c ∈ whole, c.isDigit = true) :
    readUnsigned? negative whole = some (ofDecimal negative (digitsValue 0 whole) 0) := by
  have hspan : (whole ++ []).span Char.isDigit = (whole, []) := span_isDigit_append hwhole nofun
  rw [List.append_nil] at hspan
  have hempty : whole.isEmpty = false := List.isEmpty_eq_false_iff.mpr hne
  simp only [readUnsigned?, hspan, splitFraction, hempty, Bool.false_and, Bool.false_eq_true,
    if_false, readExponent?, Option.map_some]
  rfl

/-- Digits around a point count units of the last place. -/
theorem readUnsigned?_point (negative : Bool) {whole fraction : List Char} (hne : whole ≠ [])
    (hwhole : ∀ c ∈ whole, c.isDigit = true) (hfraction : ∀ c ∈ fraction, c.isDigit = true) :
    readUnsigned? negative (whole ++ '.' :: fraction) =
      some (ofDecimal negative (digitsValue 0 (whole ++ fraction)) (-fraction.length)) := by
  have hspan : (whole ++ '.' :: fraction).span Char.isDigit = (whole, '.' :: fraction) :=
    span_isDigit_append hwhole (by rintro c ⟨⟩; rfl)
  have hrest : (fraction ++ []).span Char.isDigit = (fraction, []) :=
    span_isDigit_append hfraction nofun
  rw [List.append_nil] at hrest
  have hempty : whole.isEmpty = false := List.isEmpty_eq_false_iff.mpr hne
  simp only [readUnsigned?, hspan, splitFraction, hrest, hempty, Bool.false_and,
    Bool.false_eq_true, if_false, readExponent?, Option.map_some, zero_sub, digitsValue_append]

/-- A decimal without an exponent is read as that decimal. -/
theorem readUnsigned?_positional (negative : Bool) (d : Decimal) :
    readUnsigned? negative d.positional = some (ofDecimal negative d.coefficient d.exponent) := by
  obtain ⟨whole, fraction, hne, hwhole, hfraction, htext, hvalue⟩ := d.exists_positional_eq
  rcases htext with ⟨htext, rfl⟩ | htext
  · rw [htext, readUnsigned?_whole negative hne hwhole]
    refine congrArg some (ofDecimal_congr negative ?_)
    rwa [List.append_nil] at hvalue
  · rw [htext, readUnsigned?_point negative hne hwhole hfraction]
    exact congrArg some (ofDecimal_congr negative hvalue)

variable {n : Number}

theorem isNaN_of_isFinite (h : n.isFinite = true) : n.isNaN = false := by
  rw [isFinite, decide_eq_true_eq] at h
  rw [isNaN, Bool.and_eq_false_iff, beq_eq_false_iff_ne]
  left
  omega

theorem chars_of_isFinite (h : n.isFinite = true) :
    n.chars = n.signChars ++ (n.shortest .up).positional := by
  rw [chars, isNaN_of_isFinite h, if_neg Bool.false_ne_true, if_pos h]

/-- **A finite number is read back**: the text that is written for it is a numeral of it. -/
theorem readChars?_chars (h : n.isFinite = true) : readChars? n.chars = some n := by
  have hsplit : splitSign n.chars = (n.negative, (n.shortest .up).positional) := by
    obtain ⟨c, rest, htext, hc⟩ := (n.shortest .up).exists_positional_eq_cons
    rw [chars_of_isFinite h, signChars]
    cases n.negative with
    | true => rfl
    | false =>
        rw [htext, if_neg Bool.false_ne_true, List.nil_append, splitSign]
        · rintro rest' heq
          obtain ⟨rfl, -⟩ := List.cons.inj heq
          cases hc
        · rintro rest' heq
          obtain ⟨rfl, -⟩ := List.cons.inj heq
          cases hc
  simp only [readChars?, hsplit, readUnsigned?_positional, Option.orElse_some]
  rw [ofDecimal_shortest .up h]

/-- The characters of a finite number. -/
theorem isDigit_or_mem_of_mem_chars (h : n.isFinite = true) {c : Char} (hc : c ∈ n.chars) :
    c.isDigit = true ∨ c ∈ ['.', '-'] := by
  rw [chars_of_isFinite h, List.mem_append] at hc
  rcases hc with hc | hc
  · rw [signChars] at hc
    split at hc
    · exact .inr (List.mem_cons_of_mem _ hc)
    · cases hc
  · rcases Decimal.isDigit_or_eq_of_mem_positional hc with hc | rfl
    · exact .inl hc
    · exact .inr List.mem_cons_self

end Number

end JokerScript
