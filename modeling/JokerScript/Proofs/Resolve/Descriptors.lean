import JokerScript.Proofs.Lua.Scope
import JokerScript.Proofs.Number.ReadBack
import JokerScript.Proofs.Resolve.Meaning
import JokerScript.Proofs.Text.Blank

/-!
# Quantities in Writing

A quantity that is no plain number is a text: a range with its bounds, a variable of the game, or
the name of a variable. The texts are written by three constructors and are read back by trying
one way of writing after the other. Reading undoes writing, whatever blanks stand around the text:
bounds come back bit by bit, tokens with the blanks inside them, and names even where they spell a
numeral, such as `inf`.

## Main definitions

* `Quantity.surrounded` — a quantity with more text around its own.

## Main results

* `Source.ofQuantity_surrounded` — written quantities are read as what they were written from.
-/

namespace JokerScript

namespace Quantity

/-- The quantity with more text before and after its own, if it is a text. -/
def surrounded (before after : String) : Quantity → Quantity
  | number n => number n
  | text s => text (before ++ s ++ after)

end Quantity

/-! ### Pieces -/

/-- No character of a name is a blank. -/
theorem isBlank_of_isNameChar {c : Char} (h : Lua.isNameChar c = true) : isBlank c = false := by
  let blankCodes := List.range' 9 5 ++ List.range' 0x2000 11 ++
    [0x20, 0x85, 0xA0, 0x1680, 0x2028, 0x2029, 0x202F, 0x205F, 0x3000]
  have hnames : ∀ n ∈ blankCodes, Lua.isNameChar (Char.ofNat n) = false := by decide
  cases hblank : isBlank c with
  | false => rfl
  | true =>
      have hcode : c.toNat ∈ blankCodes := by
        simp only [isBlank, Bool.or_eq_true, Bool.and_eq_true, decide_eq_true_eq,
          beq_iff_eq] at hblank
        simp only [blankCodes, List.mem_append, List.mem_range'_1, List.mem_cons, List.not_mem_nil]
        omega
      have hname := hnames c.toNat hcode
      rw [Char.ofNat_toNat, h] at hname
      cases hname

namespace Number

variable {n : Number}

/-- No blank stands in the text of a finite number. -/
theorem isTrimmed_chars (h : n.isFinite = true) : IsTrimmed n.chars := by
  refine isTrimmed_of_forall fun c hc => ?_
  rcases isDigit_or_mem_of_mem_chars h hc with hc | hc
  · exact isBlank_of_isNameChar (Lua.isNameChar_of_isDigit hc)
  · simp only [List.mem_cons, List.not_mem_nil, or_false] at hc
    rcases hc with rfl | rfl <;> decide

/-- No bar stands in the text of a finite number. -/
theorem bar_notMem_chars (h : n.isFinite = true) : '|' ∉ n.chars := by
  intro hbar
  rcases isDigit_or_mem_of_mem_chars h hbar with hc | hc
  · exact absurd hc (by decide)
  · exact absurd hc (by decide)

/-- A piece of a text that is the text of a finite number gives that number. -/
theorem pieceGives_chars (default : Number) (h : n.isFinite = true) :
    PieceGives default (some n.chars) n := by
  refine .numeral ?_
  rw [numeral?, (isTrimmed_chars h).trimChars]
  exact readChars?_chars h

theorem chars_ne_nil (h : n.isFinite = true) : n.chars ≠ [] := by
  intro hnil
  have hread := readChars?_chars h
  rw [hnil] at hread
  cases hread

end Number

/-! ### Reading what is written -/

namespace Source

/-- Blanks around the text of a quantity do not change its source. -/
theorem ofQuantity_surrounded_eq {before after : String}
    (hbefore : ∀ c ∈ before.toList, isBlank c = true)
    (hafter : ∀ c ∈ after.toList, isBlank c = true) (q : Quantity) :
    ofQuantity (q.surrounded before after) = ofQuantity q := by
  cases q with
  | number n => rfl
  | text s =>
      have htext : (before ++ s ++ after).toList = before.toList ++ (s.toList ++ after.toList) := by
        rw [String.toList_append, String.toList_append, List.append_assoc]
      rw [Quantity.surrounded, ofQuantity, ofQuantity, htext, trimChars_surrounded hbefore hafter]

/-- A range is read as its bounds. -/
theorem ofQuantity_range {a b : Number} (ha : a.isFinite = true) (hb : b.isFinite = true) :
    ofQuantity (.range a b) = .range a b := by
  have htext : (Quantity.rangeLead ++ a.text ++ "|" ++ b.text).toList =
      Quantity.rangeLead.toList ++ (a.chars ++ '|' :: b.chars) := by
    simp [Number.text]
  have hbounds : IsTrimmed (a.chars ++ '|' :: b.chars) := by
    have hbar : IsTrimmed ['|'] := by decide
    exact (Number.isTrimmed_chars ha).append (Number.chars_ne_nil ha)
      (hbar.append (List.cons_ne_nil _ _) (Number.isTrimmed_chars hb))
  have htrimmed : IsTrimmed (Quantity.rangeLead.toList ++ (a.chars ++ '|' :: b.chars)) :=
    IsTrimmed.append (by decide) (by decide) hbounds
  have hpieces : IsBarred (a.chars ++ '|' :: b.chars) a.chars [b.chars] := by
    refine ⟨by simp, ?_⟩
    simp [Number.bar_notMem_chars ha, Number.bar_notMem_chars hb]
  rw [Quantity.range, ofQuantity, htext, htrimmed.trimChars, ofChars_range rfl hpieces]
  have hmin := numeralOr_eq_iff.mpr (Number.pieceGives_chars Number.one ha)
  have hmax := numeralOr_eq_iff.mpr (Number.pieceGives_chars Number.five hb)
  exact congrArg₂ Source.range hmin hmax

/-- A token is read as a variable of the game that is neither scaled nor shifted. -/
theorem ofQuantity_gameVar {token : String} (hbar : '|' ∉ token.toList)
    (htoken : IsTrimmed token.toList) :
    ofQuantity (.gameVar token) = .gameVar
      { token := token, multiplier := Number.one, offset := Number.zero false } := by
  have htext : (Quantity.gameVarLead ++ token).toList =
      Quantity.gameVarLead.toList ++ token.toList := String.toList_append
  have htrimmed : IsTrimmed (Quantity.gameVarLead.toList ++ token.toList) :=
    IsTrimmed.append (by decide) (by decide) htoken
  have hpieces : IsBarred token.toList token.toList [] := by
    refine ⟨by simp, ?_⟩
    simpa using hbar
  rw [Quantity.gameVar, ofQuantity, htext, htrimmed.trimChars, ofChars_game rfl hpieces,
    htoken.trimChars, String.ofList_toList]
  rfl

/-- An identifier is read as a name. -/
theorem ofQuantity_named {name : String} (hname : Lua.isIdentifier name = true) :
    ofQuantity (.named name) = .named name := by
  have htrimmed : IsTrimmed name.toList := by
    rw [Lua.isIdentifier, Bool.and_eq_true] at hname
    exact isTrimmed_of_forall fun c hc =>
      isBlank_of_isNameChar (Lua.forall_isNameChar_of_isNameShape hname.1 c hc)
  rw [Quantity.named, ofQuantity, htrimmed.trimChars, ofChars_identifier hname]

/-- **Written quantities are read as what they were written from**, alone and with any blanks
around them. For all finite bounds a range is read as just those bounds, signed zeros included; a
token without a bar and without blanks at its ends is read as that token, times one and plus zero;
and an identifier is read as a name, whether or not it is the name of a number, too. -/
theorem ofQuantity_surrounded (before after : String)
    (hbefore : ∀ c ∈ before.toList, isBlank c = true)
    (hafter : ∀ c ∈ after.toList, isBlank c = true) :
    (∀ a b : Number, a.isFinite = true → b.isFinite = true →
      ofQuantity (.range a b) = .range a b ∧
        ofQuantity ((Quantity.range a b).surrounded before after) = .range a b) ∧
    (∀ token : String, '|' ∉ token.toList → IsTrimmed token.toList →
      ofQuantity (.gameVar token) = .gameVar ⟨token, Number.one, Number.zero false⟩ ∧
        ofQuantity ((Quantity.gameVar token).surrounded before after) =
          .gameVar ⟨token, Number.one, Number.zero false⟩) ∧
    (∀ name : String, Lua.isIdentifier name = true →
      ofQuantity (.named name) = .named name ∧
        ofQuantity ((Quantity.named name).surrounded before after) = .named name) := by
  have hblanks := ofQuantity_surrounded_eq hbefore hafter
  refine ⟨fun a b ha hb => ?_, fun token hbar htoken => ?_, fun name hname => ?_⟩
  · rw [hblanks]
    exact ⟨ofQuantity_range ha hb, ofQuantity_range ha hb⟩
  · rw [hblanks]
    exact ⟨ofQuantity_gameVar hbar htoken, ofQuantity_gameVar hbar htoken⟩
  · rw [hblanks]
    exact ⟨ofQuantity_named hname, ofQuantity_named hname⟩

/-- Blanks around a range from `-0` to `0.1`, around a token with a blank inside, and around
`inf`, which is a numeral elsewhere. -/
theorem ofQuantity_surrounded_inf :
    ofQuantity ((Quantity.range (Number.zero true) (Number.ofDecimal false 1 (-1))).surrounded
        " " "\n") = .range (Number.zero true) (Number.ofDecimal false 1 (-1)) ∧
      ofQuantity ((Quantity.gameVar "hands left").surrounded " " "\n") =
        .gameVar ⟨"hands left", Number.one, Number.zero false⟩ ∧
      Number.read? "inf" = some (Number.infinity false) ∧
      ofQuantity ((Quantity.named "inf").surrounded " " "\n") = .named "inf" := by
  have hblanks : ∀ s ∈ [" ", "\n"], s.toList.all isBlank = true := by decide
  obtain ⟨hrange, htoken, hname⟩ := ofQuantity_surrounded " " "\n"
    (List.all_eq_true.mp (hblanks _ (by simp))) (List.all_eq_true.mp (hblanks _ (by simp)))
  exact ⟨(hrange _ _ (by decide) (by decide +kernel)).2,
    (htoken "hands left" (by decide) (by decide)).2, by decide +kernel,
    (hname "inf" (by decide)).2⟩

end Source

end JokerScript
