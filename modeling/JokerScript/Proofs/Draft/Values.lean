import JokerScript.Draft.Validate
import JokerScript.Proofs.Resolve.Meaning
import JokerScript.Proofs.Success
import JokerScript.Proofs.Text.Blank

/-!
# Values of Parameters

A parameter for a quantity may hold any JSON value. A **structured** one — a boolean, an array or
an object — is carried as its compact text, which goes the way of the texts of authors. It never
passes for one of them. A boolean is a reserved word of Lua, and all else begins with a bracket,
so that such a text has no lead, is no identifier and is no numeral.

## Main definitions

* `Json.IsStructured` — booleans, arrays and objects.
* `EffectKind.Reads` — which numbers and quantities an effect takes from its parameters.

## Main results

* `Json.IsStructured.ofQuantity` — the text of a structured value names no source.
* `Json.IsStructured.asNumber?` — the text of a structured value is no numeral.
* `DraftEffect.reads_of_validKind` — a valid effect reads what its kind reads.
-/

namespace JokerScript

/-- No numeral begins with a bracket. -/
theorem readChars?_of_bracket {c : Char} (hc : c ∈ ['[', '{']) (cs : List Char) :
    Number.readChars? (c :: cs) = none := by
  simp only [List.mem_cons, List.not_mem_nil, or_false] at hc
  rcases hc with rfl | rfl <;>
    simp [Number.readChars?, Number.splitSign, Number.readUnsigned?, Number.splitFraction,
      List.span_eq_takeWhile_dropWhile, Number.readName?, Option.orElse]

namespace Json

/-- A value is **structured** if it is a boolean, an array or an object. -/
inductive IsStructured : Json → Prop
  | bool (b : Bool) : IsStructured (.bool b)
  | arr (items : List Json) : IsStructured (.arr items)
  | obj (members : List (String × Json)) : IsStructured (.obj members)

variable {j : Json}

/-- A structured value is carried as its text. -/
theorem IsStructured.quantityOf? (h : j.IsStructured) :
    Params.quantityOf? j = some (.text j.compact) := by
  cases h <;> rfl

/-- The text of a structured value is a reserved word, or it begins with a bracket. -/
theorem IsStructured.trimmed (h : j.IsStructured) :
    (∃ word ∈ ["true", "false"], trimChars j.chars = word.toList) ∨
      ∃ c ∈ ['[', '{'], ∃ cs, trimChars j.chars = c :: cs := by
  cases h with
  | bool b =>
      cases b with
      | true => exact .inl ⟨"true", by simp, by rw [chars]; decide⟩
      | false => exact .inl ⟨"false", by simp, by rw [chars]; decide⟩
  | arr items =>
      have htrim : trimChars (chars (.arr items)) = '[' :: trimEnd (itemChars items ++ [']']) := by
        rw [chars, List.cons_append, trimChars_cons (by decide)]
      exact .inr ⟨'[', by simp, _, htrim⟩
  | obj members =>
      have htrim : trimChars (chars (.obj members)) =
          '{' :: trimEnd (memberChars members ++ ['}']) := by
        rw [chars, List.cons_append, trimChars_cons (by decide)]
      exact .inr ⟨'{', by simp, _, htrim⟩

/-- **The text of a structured value names no source.** -/
theorem IsStructured.ofQuantity (h : j.IsStructured) :
    Source.ofQuantity (.text j.compact) = .unresolved := by
  rw [Source.ofQuantity, Json.compact, String.toList_ofList]
  rcases h.trimmed with ⟨word, hword, htrim⟩ | ⟨c, hc, cs, htrim⟩
  · rw [htrim]
    simp only [List.mem_cons, List.not_mem_nil, or_false] at hword
    rcases hword with rfl | rfl <;> decide +kernel
  · have hne (d : Char) (hd : d ∈ ['G', 'R']) (lead rest : List Char) :
        c :: cs ≠ d :: lead ++ rest := by
      intro heq
      obtain ⟨rfl, -⟩ := List.cons.inj heq
      simp only [List.mem_cons, List.not_mem_nil, or_false] at hc hd
      rcases hc with rfl | rfl <;> simp at hd
    have hname : Lua.isIdentifier (String.ofList (c :: cs)) = false := by
      simp only [List.mem_cons, List.not_mem_nil, or_false] at hc
      rcases hc with rfl | rfl <;> simp [Lua.isIdentifier, Lua.isNameShape, Lua.isNameStart]
    rw [htrim, ofChars_of_forall_ne (hne 'G' (by simp) _) (hne 'R' (by simp) _), hname,
      readChars?_of_bracket hc]
    rfl

/-- **The text of a structured value is no numeral.** -/
theorem IsStructured.asNumber? (h : j.IsStructured) :
    Quantity.asNumber? (.text j.compact) = none := by
  rw [Quantity.asNumber?, Json.compact, String.toList_ofList]
  rcases h.trimmed with ⟨word, hword, htrim⟩ | ⟨c, hc, cs, htrim⟩
  · rw [htrim]
    simp only [List.mem_cons, List.not_mem_nil, or_false] at hword
    rcases hword with rfl | rfl <;> decide +kernel
  · rw [htrim, readChars?_of_bracket hc]

end Json

/-! ### Valid effects -/

/-- The number or the quantity of an effect is read from its parameter. -/
def EffectKind.Reads (params : Params) : EffectKind → Prop
  | editHand change => change.value = params.quantityOrOne "value"
  | modifyBlind change => change.value = params.quantityOrOne "value"
  | discountItems discount => discount.amount = params.amount "discount_amount"
  | freeRerolls grant => grant.amount = params.amount "reroll_amount"
  | createJoker _ | destroyConsumable _ | combineSuits _ => True

namespace DraftEffect

theorem reads_of_editHand {params : Params} {change : HandChange}
    (h : editHand params = .ok change) : change.value = params.quantityOrOne "value" := by
  obtain ⟨operation, -, h⟩ := exists_of_bind_eq_ok h
  obtain ⟨duration, -, h⟩ := exists_of_bind_eq_ok h
  obtain rfl := Except.ok.inj h
  rfl

theorem reads_of_discountItems {params : Params} {discount : Discount}
    (h : discountItems params = .ok discount) :
    discount.amount = params.amount "discount_amount" := by
  obtain ⟨target, -, h⟩ := exists_of_bind_eq_ok h
  obtain rfl := Except.ok.inj h
  rfl

/-- **A valid effect** reads what its kind reads. -/
theorem reads_of_validKind {e : DraftEffect} {kind : EffectKind} (h : e.validKind = .ok kind) :
    kind.Reads e.params := by
  rw [validKind] at h
  split at h
  case h_1 | h_4 | h_6 =>
    obtain rfl := Except.ok.inj h
    trivial
  case h_2 | h_7 =>
    obtain ⟨params, -, rfl⟩ := exists_of_map_eq_ok h
    trivial
  case h_3 =>
    obtain ⟨change, hchange, rfl⟩ := exists_of_map_eq_ok h
    exact reads_of_editHand hchange
  case h_5 =>
    obtain ⟨discount, hdiscount, rfl⟩ := exists_of_map_eq_ok h
    exact reads_of_discountItems hdiscount
  case h_8 => cases h

theorem reads_of_validate {e : DraftEffect} {effect : Effect} (h : e.validate = .ok effect) :
    effect.kind.Reads e.params := by
  obtain ⟨kind, hkind, rfl⟩ := exists_of_map_eq_ok h
  exact reads_of_validKind hkind

end DraftEffect

end JokerScript
