import JokerScript.Text.Blank

/-!
# Blanks Around Texts

Reading a text without the blanks around it forgets them and nothing else: blanks may be put
before it and behind it, and a text that has none at its ends is read whole.

## Main definitions

* `IsTrimmed` — a text without blanks at its ends.

## Main results

* `trimChars_surrounded` — blanks around a text are forgotten.
* `IsTrimmed.trimChars` — nothing else is.
-/

namespace JokerScript

/-- The text neither begins nor ends with a blank. -/
structure IsTrimmed (cs : List Char) : Prop where
  head : ∀ c ∈ cs.head?, isBlank c = false
  last : ∀ c ∈ cs.getLast?, isBlank c = false

variable {cs : List Char}

/-- Only the two ends have to be looked at. -/
theorem isTrimmed_iff : IsTrimmed cs ↔
    cs.head?.any isBlank = false ∧ cs.getLast?.any isBlank = false := by
  rw [Option.any_eq_false, Option.any_eq_false]
  exact ⟨fun h => ⟨h.head, h.last⟩, fun h => ⟨h.1, h.2⟩⟩

instance : Decidable (IsTrimmed cs) := decidable_of_iff' _ isTrimmed_iff

/-- Nothing before a character that is no blank is left out. -/
theorem trimChars_cons {c : Char} (hc : isBlank c = false) (cs : List Char) :
    trimChars (c :: cs) = c :: trimEnd cs := by
  have hdrop : (c :: cs).dropWhile isBlank = c :: cs := by
    rw [List.dropWhile_cons, hc, if_neg Bool.false_ne_true]
  rw [trimChars, hdrop, trimEnd]
  cases trimEnd cs with
  | nil => simp [hc]
  | cons d ds => rfl

theorem trimEnd_eq_nil (h : ∀ c ∈ cs, isBlank c = true) : trimEnd cs = [] := by
  induction cs with
  | nil => rfl
  | cons c cs ih =>
      rw [List.forall_mem_cons] at h
      rw [trimEnd, ih h.2]
      exact if_pos h.1

theorem trimEnd_append {after : List Char} (hafter : ∀ c ∈ after, isBlank c = true)
    (cs : List Char) : trimEnd (cs ++ after) = trimEnd cs := by
  induction cs with
  | nil => exact trimEnd_eq_nil hafter
  | cons c cs ih => rw [List.cons_append, trimEnd, ih, trimEnd]

/-- **Blanks around a text are forgotten.** -/
theorem trimChars_surrounded {before after : List Char} (hbefore : ∀ c ∈ before, isBlank c = true)
    (hafter : ∀ c ∈ after, isBlank c = true) (cs : List Char) :
    trimChars (before ++ (cs ++ after)) = trimChars cs := by
  rw [trimChars, List.dropWhile_append_of_pos hbefore, List.dropWhile_append, trimChars]
  split
  · rename_i hempty
    rw [List.isEmpty_iff.mp hempty, trimEnd_eq_nil]
    · rfl
    · exact fun c hc => hafter c ((List.dropWhile_sublist isBlank).mem hc)
  · exact trimEnd_append hafter _

theorem trimEnd_eq_self (h : ∀ c ∈ cs.getLast?, isBlank c = false) : trimEnd cs = cs := by
  induction cs with
  | nil => rfl
  | cons c cs ih =>
      cases cs with
      | nil => simp [trimEnd, h c rfl]
      | cons d cs =>
          rw [trimEnd, ih fun e he => h e (by rwa [List.getLast?_cons_cons])]

/-- **A text without blanks at its ends is read whole.** -/
theorem IsTrimmed.trimChars (h : IsTrimmed cs) : trimChars cs = cs := by
  cases cs with
  | nil => rfl
  | cons c cs =>
      rw [JokerScript.trimChars, List.dropWhile_cons, h.head c rfl, if_neg Bool.false_ne_true,
        trimEnd_eq_self h.last]

/-- A text without any blank has none at its ends. -/
theorem isTrimmed_of_forall (h : ∀ c ∈ cs, isBlank c = false) : IsTrimmed cs where
  head c hc := h c (List.mem_of_mem_head? hc)
  last c hc := h c (List.mem_of_mem_getLast? hc)

/-- What stands in front may itself be anything that does not begin with a blank. -/
theorem IsTrimmed.append {lead : List Char} (hne : lead ≠ []) (hlead : IsTrimmed lead)
    (h : IsTrimmed cs) : IsTrimmed (lead ++ cs) where
  head c hc := by
    obtain ⟨d, rest, rfl⟩ := List.exists_cons_of_ne_nil hne
    exact hlead.head c hc
  last c hc := by
    rw [List.getLast?_append] at hc
    cases hcs : cs.getLast? with
    | none =>
        rw [hcs] at hc
        exact hlead.last c hc
    | some d =>
        rw [hcs] at hc
        obtain rfl := Option.some.inj hc
        exact h.last d hcs

end JokerScript
