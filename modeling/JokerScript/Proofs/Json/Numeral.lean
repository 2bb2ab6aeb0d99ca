import JokerScript.Json.Print
import JokerScript.Json.Read
import JokerScript.Proofs.Number.Written

/-!
# JSON Numerals Read Back

A numeral has whole digits, and it may have digits after a point and an exponent. The reader
takes a numeral up to a character that cannot go on with it. A finite number is written in one of
four ways, with or without an exponent and on either side of the point, and each of them is a
decimal of one value, so each is read as that number.

## Main definitions

* `Json.Reader.NumeralEnd` — the text after a numeral does not go on with it.
* `Json.Reader.Numeral` — the parts of a numeral that is read as a float.

## Main results

* `Json.Reader.number?_floatChars`, `Json.Reader.number?_intChars` — written numbers are read
  back.
-/

namespace JokerScript

namespace Json

namespace Reader

open Number (digitsValue digitsValue_append digitsValue_digitChars digitsValue_replicate_zero)

/-- The text after a numeral does not go on with it. -/
def NumeralEnd (rest : List Char) : Prop :=
  ∀ c ∈ rest.head?, c.isDigit = false ∧ c ≠ '.' ∧ c ≠ 'e' ∧ c ≠ 'E'

/-! ### Parts of a numeral -/

/-- Digits as they may stand before the point: a zero, or digits that do not begin with one. -/
structure IsWhole (whole : List Char) : Prop where
  digits : ∀ c ∈ whole, c.isDigit = true
  ne_nil : whole ≠ []
  zero : whole.head? = some '0' → whole = ['0']

theorem isWhole_digitChars (k : ℕ) : IsWhole (digitChars k) where
  digits _ := isDigit_of_mem_digitChars
  ne_nil := digitChars_ne_nil k
  zero h := by
    rcases Nat.eq_zero_or_pos k with rfl | hk
    · rfl
    · obtain ⟨d, rest, hdigits, hd⟩ := exists_digitChars_eq_cons hk
      rw [hdigits] at h
      exact absurd (Option.some.inj h) hd

theorem wholeDigits?_append {whole rest : List Char} (h : IsWhole whole)
    (hrest : ∀ c ∈ rest.head?, c.isDigit = false) :
    wholeDigits? (whole ++ rest) = some (whole, rest) := by
  rw [wholeDigits?, span_isDigit_append h.digits hrest]
  have hne := h.ne_nil
  have hzero := h.zero
  split
  · simp_all
  · simp_all
  · rfl

/-- The digits after a point; without digits there is no point. -/
def fractionText : List Char → List Char
  | [] => []
  | d :: rest => '.' :: d :: rest

theorem fractionDigits?_append {fraction rest : List Char}
    (h : ∀ c ∈ fraction, c.isDigit = true)
    (hrest : ∀ c ∈ rest.head?, c.isDigit = false ∧ c ≠ '.') :
    fractionDigits? (fractionText fraction ++ rest) = some (fraction, rest) := by
  cases fraction with
  | nil =>
      cases rest with
      | nil => rfl
      | cons c rest =>
          rw [fractionText, List.nil_append, fractionDigits?]
          rintro cs ⟨⟩
          exact (hrest '.' rfl).2 rfl
  | cons d fraction =>
      have hspan := span_isDigit_append h fun c hc => (hrest c hc).1
      rw [List.cons_append] at hspan
      simp only [fractionText, fractionDigits?, List.cons_append, hspan]

/-- An exponent, if there is one. -/
def exponentText : Option ℤ → List Char
  | none => []
  | some e => exponentChars e

theorem exponent?_append (exponent : Option ℤ) {rest : List Char} (hrest : NumeralEnd rest) :
    exponent? (exponentText exponent ++ rest) = some (exponent, rest) := by
  cases exponent with
  | none =>
      cases rest with
      | nil => rfl
      | cons c rest =>
          obtain ⟨-, -, he, hE⟩ := hrest c rfl
          simp [exponentText, exponent?, he, hE]
  | some e =>
      have hdigit : ∀ c ∈ digitChars e.natAbs, c.isDigit = true :=
        fun c => isDigit_of_mem_digitChars
      have hspan := span_isDigit_append hdigit fun c hc => (hrest c hc).1
      have hvalue := digitsValue_digitChars e.natAbs
      obtain ⟨d, digits, hdigits⟩ := List.exists_cons_of_ne_nil (digitChars_ne_nil e.natAbs)
      rw [hdigits, List.cons_append] at hspan
      rw [hdigits] at hvalue
      rw [exponentText, exponentChars, hdigits]
      by_cases hsign : e < 0
      · have hneg : -(e.natAbs : ℤ) = e := by omega
        simp only [hsign, if_true, List.cons_append, exponent?, true_or, Number.splitSign,
          hspan, hvalue, hneg]
      · have hpos : (e.natAbs : ℤ) = e := by omega
        simp only [hsign, if_false, if_true, List.cons_append, exponent?, true_or,
          Number.splitSign, hspan, hvalue, hpos, Bool.false_eq_true]

/-! ### Numerals -/

/-- **A numeral that is read as a float**, by its parts. -/
structure Numeral where
  negative : Bool
  /-- The digits before the point. -/
  whole : List Char
  /-- The digits after the point. -/
  fraction : List Char
  exponent : Option ℤ
  isWhole : IsWhole whole
  digits : ∀ c ∈ fraction, c.isDigit = true
  isFloat : fraction ≠ [] ∨ exponent ≠ none

namespace Numeral

/-- The text of a numeral. -/
def chars (m : Numeral) : List Char :=
  (if m.negative then ['-'] else []) ++
    (m.whole ++ (fractionText m.fraction ++ exponentText m.exponent))

/-- The coefficient of a numeral as a decimal. -/
def coefficient (m : Numeral) : ℕ := digitsValue (digitsValue 0 m.whole) m.fraction

/-- The exponent of a numeral as a decimal. -/
def scale (m : Numeral) : ℤ := m.exponent.getD 0 - m.fraction.length

/-- The number nearest to a numeral. -/
def number (m : Numeral) : Number :=
  Number.ofDecimal m.negative m.coefficient m.scale

end Numeral

/-- The number that an unsigned numeral at the head of a text stands for after a sign. -/
def unsigned? (negative : Bool) (cs : List Char) : Option (Json × List Char) := do
  let (whole, cs) ← wholeDigits? cs
  let (fraction, afterFraction) ← fractionDigits? cs
  let (exponent, rest) ← exponent? afterFraction
  let digits := digitsValue (digitsValue 0 whole) fraction
  match fraction, exponent with
  | [], none => some (ofIntegerLiteral negative digits, rest)
  | _, _ =>
    let n := Number.ofDecimal negative digits (exponent.getD 0 - fraction.length)
    if n.isFinite then some (float n, rest) else none

/-- The sign of a numeral, whose digits are not a sign. -/
theorem number?_append {negative : Bool} {whole rest : List Char} (h : IsWhole whole) :
    number? ((if negative then ['-'] else []) ++ (whole ++ rest)) =
      unsigned? negative (whole ++ rest) := by
  cases negative with
  | true => rfl
  | false =>
      obtain ⟨d, whole, rfl⟩ := List.exists_cons_of_ne_nil h.ne_nil
      have hd : d ≠ '-' := by
        rintro rfl
        cases h.digits '-' List.mem_cons_self
      simp only [Bool.false_eq_true, if_false, List.nil_append, List.cons_append, number?]
      split
      · rename_i heq
        exact absurd (List.cons.inj heq).1 hd
      · rfl

theorem head?_exponentText_append (exponent : Option ℤ) {rest : List Char}
    (hrest : NumeralEnd rest) :
    ∀ c ∈ (exponentText exponent ++ rest).head?, c.isDigit = false ∧ c ≠ '.' := by
  cases exponent with
  | none => exact fun c hc => ⟨(hrest c hc).1, (hrest c hc).2.1⟩
  | some e =>
      rintro c ⟨⟩
      decide

theorem head?_fractionText_append (fraction : List Char) {rest : List Char}
    (hrest : ∀ c ∈ rest.head?, c.isDigit = false ∧ c ≠ '.') :
    ∀ c ∈ (fractionText fraction ++ rest).head?, c.isDigit = false := by
  cases fraction with
  | nil => exact fun c hc => (hrest c hc).1
  | cons d fraction =>
      rintro c ⟨⟩
      decide

/-- **A numeral is read up to a character that does not go on with it.** -/
theorem number?_numeral (m : Numeral) (hfinite : m.number.isFinite = true) {rest : List Char}
    (hrest : NumeralEnd rest) : number? (m.chars ++ rest) = some (.float m.number, rest) := by
  have hexponent := exponent?_append m.exponent hrest
  have hend := head?_exponentText_append m.exponent hrest
  have hfraction := fractionDigits?_append m.digits hend
  have hwhole := wholeDigits?_append m.isWhole (head?_fractionText_append m.fraction hend)
  rw [Numeral.number, Numeral.coefficient, Numeral.scale] at hfinite ⊢
  rw [Numeral.chars, List.append_assoc, List.append_assoc, List.append_assoc,
    number?_append m.isWhole]
  simp only [unsigned?, hwhole, hfraction, hexponent, Option.bind_eq_bind, Option.bind_some]
  split
  · rename_i hnil hnone
    exact absurd m.isFloat (by simp [hnil, hnone])
  · rw [if_pos hfinite]

/-! ### Written floats -/

/-- The decimal `d` of a sign is the value of the numeral `m`. -/
structure Numeral.Writes (m : Numeral) (negative : Bool) (d : Decimal) : Prop where
  negative_eq : m.negative = negative
  value : (m.coefficient : ℚ) * 10 ^ m.scale = d.coefficient * 10 ^ d.exponent
  chars_eq : m.chars = (if negative then ['-'] else []) ++ decimalChars d

section Written

variable {d : Decimal} {c : Char} {rest : List Char}

theorem isWhole_cons (hc : c ≠ '0') (hdigits : ∀ x ∈ c :: rest, x.isDigit = true) :
    IsWhole (c :: rest) where
  digits := hdigits
  ne_nil := List.cons_ne_nil c rest
  zero h := absurd (Option.some.inj h) hc

theorem isDigit_of_mem_zero : ∀ c ∈ ['0'], c.isDigit = true :=
  fun _ hc => List.mem_singleton.mp hc ▸ rfl

/-- A decimal without places is written with one zero after the point. -/
theorem exists_writes_whole (negative : Bool) (hpos : 0 < d.coefficient) {k : ℕ}
    (hexponent : d.exponent = k) (hchars : decimalChars d = d.positional ++ ['.', '0']) :
    ∃ m : Numeral, m.Writes negative d := by
  let whole := digitChars d.coefficient ++ List.replicate k '0'
  have hmem : ∀ x ∈ whole, x.isDigit = true := by
    intro x hx
    rcases List.mem_append.mp hx with hx | hx
    · exact isDigit_of_mem_digitChars hx
    · rw [List.eq_of_mem_replicate hx]
      rfl
  have hwhole : IsWhole whole := by
    obtain ⟨c, rest, hdigits, hc⟩ := exists_digitChars_eq_cons hpos
    simp only [whole, hdigits, List.cons_append] at hmem ⊢
    exact isWhole_cons hc hmem
  refine ⟨⟨negative, whole, ['0'], none, hwhole, isDigit_of_mem_zero,
    .inl (List.cons_ne_nil _ _)⟩, rfl, ?_, ?_⟩
  · have hcoefficient : digitsValue (digitsValue 0 whole) ['0'] =
        10 * (d.coefficient * 10 ^ k) := by
      rw [digitsValue_append, digitsValue_digitChars, digitsValue_replicate_zero]
      rfl
    rw [Numeral.coefficient, Numeral.scale, hcoefficient, hexponent]
    norm_num [zpow_neg]
    ring
  · have hplaces : (-d.exponent).toNat = 0 := by omega
    have hzeros : d.exponent.toNat = k := by omega
    rw [hchars, Decimal.positional, if_pos hplaces, hzeros]
    rfl

/-- A decimal whose point falls between its digits. -/
theorem exists_writes_inside (negative : Bool) (hpos : 0 < d.coefficient) {places : ℕ}
    (hexponent : d.exponent = -places) (hplaces : 0 < places)
    (hlt : places < (digitChars d.coefficient).length)
    (hchars : decimalChars d = d.positional) : ∃ m : Numeral, m.Writes negative d := by
  obtain ⟨c, rest, hdigits, hc⟩ := exists_digitChars_eq_cons hpos
  have hvalue := digitsValue_digitChars d.coefficient
  have hmem : ∀ x ∈ digitChars d.coefficient, x.isDigit = true :=
    fun x => isDigit_of_mem_digitChars
  obtain ⟨k, hk⟩ : ∃ k, (digitChars d.coefficient).length - places = k + 1 :=
    ⟨(digitChars d.coefficient).length - places - 1, by omega⟩
  have hwhole : IsWhole ((digitChars d.coefficient).take (k + 1)) := by
    have htake : ∀ x ∈ (digitChars d.coefficient).take (k + 1), x.isDigit = true :=
      fun x hx => hmem x (List.mem_of_mem_take hx)
    rw [hdigits, List.take_succ_cons] at htake ⊢
    exact isWhole_cons hc htake
  have hlength : ((digitChars d.coefficient).drop (k + 1)).length = places := by
    rw [List.length_drop]
    omega
  have hne : (digitChars d.coefficient).drop (k + 1) ≠ [] :=
    List.ne_nil_of_length_pos (by omega)
  refine ⟨⟨negative, _, (digitChars d.coefficient).drop (k + 1), none, hwhole,
    fun x hx => hmem x (List.mem_of_mem_drop hx), .inl hne⟩, rfl, ?_, ?_⟩
  · rw [Numeral.coefficient, Numeral.scale, ← digitsValue_append, List.take_append_drop, hvalue,
      hlength, hexponent, Option.getD_none, zero_sub]
  · have htoNat : (-d.exponent).toNat = places := by omega
    obtain ⟨x, xs, hx⟩ := List.exists_cons_of_ne_nil hne
    rw [hchars, Decimal.positional]
    simp only [htoNat, if_neg hplaces.ne', if_pos hlt, hk]
    simp only [Numeral.chars, hx, fractionText, exponentText, List.append_nil]

/-- A decimal below one, with its zeros after the point. -/
theorem exists_writes_below (negative : Bool) {places : ℕ}
    (hexponent : d.exponent = -places) (hplaces : 0 < places)
    (hle : (digitChars d.coefficient).length ≤ places)
    (hchars : decimalChars d = d.positional) : ∃ m : Numeral, m.Writes negative d := by
  let zeros := List.replicate (places - (digitChars d.coefficient).length) '0'
  have hvalue := digitsValue_digitChars d.coefficient
  have hmem : ∀ x ∈ zeros ++ digitChars d.coefficient, x.isDigit = true := by
    intro x hx
    rcases List.mem_append.mp hx with hx | hx
    · rw [List.eq_of_mem_replicate hx]
      rfl
    · exact isDigit_of_mem_digitChars hx
  have hlength : (zeros ++ digitChars d.coefficient).length = places := by
    rw [List.length_append, List.length_replicate]
    omega
  have hne : zeros ++ digitChars d.coefficient ≠ [] := List.ne_nil_of_length_pos (by omega)
  refine ⟨⟨negative, ['0'], zeros ++ digitChars d.coefficient, none, isWhole_digitChars 0, hmem,
    .inl hne⟩, rfl, ?_, ?_⟩
  · have hcoefficient : digitsValue (digitsValue 0 ['0']) (zeros ++ digitChars d.coefficient) =
        d.coefficient := by
      rw [digitsValue_append, digitsValue_replicate_zero]
      simpa [digitsValue] using hvalue
    rw [Numeral.coefficient, Numeral.scale, hcoefficient, hlength, hexponent, Option.getD_none,
      zero_sub]
  · have htoNat : (-d.exponent).toNat = places := by omega
    obtain ⟨x, xs, hx⟩ := List.exists_cons_of_ne_nil hne
    rw [hchars, Decimal.positional]
    simp only [htoNat, if_neg hplaces.ne', if_neg (Nat.not_lt.mpr hle)]
    simp only [Numeral.chars, hx, fractionText, exponentText, List.append_nil, zeros,
      List.cons_append, List.nil_append]

/-- A decimal with an exponent. -/
theorem exists_writes_scientific (negative : Bool) (hpos : 0 < d.coefficient)
    (hchars : decimalChars d = scientificDigits (digitChars d.coefficient) ++
      exponentChars ((digitChars d.coefficient).length + d.exponent - 1)) :
    ∃ m : Numeral, m.Writes negative d := by
  obtain ⟨c, rest, hdigits, hc⟩ := exists_digitChars_eq_cons hpos
  have hvalue := digitsValue_digitChars d.coefficient
  have hmem : ∀ x ∈ c :: rest, x.isDigit = true :=
    hdigits ▸ fun x => isDigit_of_mem_digitChars
  have hwhole : IsWhole [c] := isWhole_cons hc fun x hx => by simp_all
  refine ⟨⟨negative, [c], rest, some (rest.length + d.exponent), hwhole,
    fun x hx => hmem x (.tail c hx), .inr (by simp)⟩, rfl, ?_, ?_⟩
  · have hcoefficient : digitsValue (digitsValue 0 [c]) rest = d.coefficient := by
      rw [← digitsValue_append, List.cons_append, List.nil_append, ← hdigits, hvalue]
    rw [Numeral.coefficient, Numeral.scale, hcoefficient]
    simp
  · have hexponent : ((c :: rest).length : ℤ) + d.exponent - 1 = rest.length + d.exponent := by
      rw [List.length_cons]
      push_cast
      ring
    rw [hchars, hdigits, hexponent]
    cases rest <;> rfl

/-- **The text of a positive decimal is a numeral of its value.** -/
theorem exists_writes (negative : Bool) (hpos : 0 < d.coefficient) :
    ∃ m : Numeral, m.Writes negative d := by
  by_cases hpoint : -5 < ((digitChars d.coefficient).length + d.exponent : ℤ) ∧
      ((digitChars d.coefficient).length + d.exponent : ℤ) ≤ 16
  · by_cases hexponent : 0 ≤ d.exponent
    · obtain ⟨k, hk⟩ : ∃ k : ℕ, d.exponent = k := ⟨d.exponent.toNat, by omega⟩
      exact exists_writes_whole negative hpos hk (by simp [decimalChars, hpoint, hexponent])
    · have hchars : decimalChars d = d.positional := by simp [decimalChars, hpoint, hexponent]
      obtain ⟨places, hplaces⟩ : ∃ k : ℕ, d.exponent = -k := ⟨(-d.exponent).toNat, by omega⟩
      rcases Nat.lt_or_ge places (digitChars d.coefficient).length with hlt | hle
      · exact exists_writes_inside negative hpos hplaces (by omega) hlt hchars
      · exact exists_writes_below negative hplaces (by omega) hle hchars
  · exact exists_writes_scientific negative hpos (by simp [decimalChars, hpoint])

end Written

/-! ### Written numbers -/

/-- Zero is written with one zero after the point. -/
def zeroNumeral (negative : Bool) : Numeral :=
  ⟨negative, ['0'], ['0'], none, isWhole_digitChars 0, isDigit_of_mem_zero,
    .inl (List.cons_ne_nil _ _)⟩

theorem exists_numeral {n : Number} (h : n.isFinite = true) :
    ∃ m : Numeral, m.number = n ∧ m.chars = floatChars n := by
  cases hzero : n.isZero with
  | true =>
      refine ⟨zeroNumeral n.negative, ?_, by rw [floatChars, hzero]; rfl⟩
      rw [Number.eq_zero_of_isZero hzero]
      rfl
  | false =>
      have hpos := Number.coefficient_shortest_pos .even h hzero
      obtain ⟨m, hm⟩ := exists_writes n.negative hpos
      refine ⟨m, ?_, ?_⟩
      · rw [Numeral.number, Number.ofDecimal_congr _ hm.value, hm.negative_eq,
          Number.ofDecimal_shortest .even h]
      · rw [hm.chars_eq, floatChars, hzero]
        rfl

/-- **A finite number is read back from its text.** -/
theorem number?_floatChars {n : Number} (h : n.isFinite = true) {rest : List Char}
    (hrest : NumeralEnd rest) : number? (floatChars n ++ rest) = some (.float n, rest) := by
  obtain ⟨m, hnumber, hchars⟩ := exists_numeral h
  rw [← hchars, number?_numeral m (hnumber ▸ h) hrest, hnumber]

theorem toList_toString_int (i : ℤ) :
    (toString i).toList = (if decide (i < 0) then ['-'] else []) ++ digitChars i.natAbs := by
  cases i with
  | ofNat k => simp [digitChars, toString, Int.repr]
  | negSucc k => simp [digitChars, toString, Int.repr]

/-- The integers of 64 bits, with a sign or without. -/
def IsInt64 (i : ℤ) : Prop := -0x8000000000000000 ≤ i ∧ i < 0x10000000000000000

/-- **An integer of 64 bits is read back from its text.** -/
theorem number?_intChars {i : ℤ} (hi : IsInt64 i) {rest : List Char} (hrest : NumeralEnd rest) :
    number? ((toString i).toList ++ rest) = some (.int i, rest) := by
  have hwhole := wholeDigits?_append (isWhole_digitChars i.natAbs) fun c hc => (hrest c hc).1
  have hfraction : fractionDigits? rest = some ([], rest) :=
    fractionDigits?_append (List.forall_mem_nil _)
      fun c hc => ⟨(hrest c hc).1, (hrest c hc).2.1⟩
  have hexponent : exponent? rest = some (none, rest) := exponent?_append none hrest
  rw [toList_toString_int, List.append_assoc, number?_append (isWhole_digitChars i.natAbs)]
  simp only [unsigned?, hwhole, hfraction, hexponent, Option.bind_eq_bind, Option.bind_some,
    digitsValue_digitChars]
  obtain ⟨hlow, hhigh⟩ := hi
  have hliteral : ofIntegerLiteral (decide (i < 0)) i.natAbs = .int i := by
    rw [ofIntegerLiteral]
    split
    · rename_i hneg
      have hneg : i < 0 := of_decide_eq_true hneg
      rw [if_neg (by omega), show -(i.natAbs : ℤ) = i by omega]
    · rename_i hpos
      have hpos : ¬ i < 0 := by simpa using hpos
      rw [if_pos (by omega), show (i.natAbs : ℤ) = i by omega]
  rw [← hliteral]
  rfl

end Reader

end Json

end JokerScript
