import JokerScript.Proofs.Draft.Values
import JokerScript.Proofs.Number.Distance
import JokerScript.Proofs.Resolve.Policies

/-!
# Quantities of Drafts

A quantity parameter is typed by what it holds. A number is a number: one with a point or an
exponent is kept as it was read, and an integer becomes the double-precision number nearest to it,
so that its value is kept wherever such a number has it. What is missing, `null` or empty takes the
default. A structured value becomes a text that stands for nothing, in the storage of any joker.

## Main definitions

* `TypedQuantity` — a quantity parameter of a valid effect or condition.
* `Quantity.AlwaysZero` — a quantity that is resolved to zero wherever it is resolved.

## Main results

* `TypedQuantity.eq` — what a quantity parameter becomes.
* `TypedQuantity.of_lookup` — the same by what the parameter holds.
-/

namespace JokerScript

/-! ### Quantities that are zero -/

/-- The quantity is **always zero**: under both policies, for every joker, and after any run of
claims and declarations it is resolved to the literal zero. The literal is kept in a variable
exactly if literals are declared. -/
def Quantity.AlwaysZero (q : Quantity) : Prop :=
  ∀ (policy : LiteralPolicy) (naming : Naming) (base owner : String) (joker : Joker)
    (start : Storage) (ops : List Storage.Op), Storage.ofJoker joker = .ok start →
    ∃ slot t, (policy.resolveFresh naming base owner q).run (start.run ops) =
        (.ok (.literal (Number.zero false) slot), t) ∧
      (slot.isSome ↔ policy = .declared)

/-- What names no source is always zero. -/
theorem alwaysZero_of_unresolved {q : Quantity} (h : Source.ofQuantity q = .unresolved) :
    q.AlwaysZero := by
  intro policy naming base owner joker start ops hstart
  have hs : (start.run ops).Reachable := (Storage.Reachable.ofJoker hstart).run ops
  cases policy with
  | declared =>
      have hrun := run_resolve_declared naming ((start.run ops).claim base valueSuffixes).2
        ((start.run ops).claimedName base valueSuffixes) owner q fun _ hform =>
          hs.notMem_names_of_claim hform
      rw [h] at hrun
      exact ⟨_, _, (Resolver.run_bind_of_ok _ (Resolver.run_claim base valueSuffixes _)).trans hrun,
        by simp⟩
  | inline =>
      have hrun := run_resolve_inline naming hs base owner q
      rw [h] at hrun
      exact ⟨_, _, hrun, by simp⟩

/-! ### Typed parameters -/

/-- **A quantity parameter** of a valid effect or condition: the parameters and its name, what it
is by default, and what it has become. -/
inductive TypedQuantity : Params → String → Option Quantity → Option Quantity → Prop
  | effect {e : DraftEffect} {effect : Effect} {q : Quantity} (h : e.validate = .ok effect)
      (hq : effect.kind.quantity? = some q) :
      TypedQuantity e.params "value" (some (.number Number.one)) (some q)
  | condition {c : DraftCondition} {condition : Condition} (h : c.validate = .ok condition) :
      TypedQuantity c.params "count" none condition.test.count

/-- The count of a valid condition is read from its parameter. -/
theorem DraftCondition.count_of_validate {c : DraftCondition} {condition : Condition}
    (h : c.validate = .ok condition) : condition.test.count = c.params.quantity? "count" := by
  rw [validate] at h
  split at h
  · obtain ⟨test, htest, rfl⟩ := exists_of_map_eq_ok h
    obtain ⟨choice, -, htest⟩ := exists_of_bind_eq_ok htest
    obtain rfl := Except.ok.inj htest
    rfl
  · cases h

namespace TypedQuantity

variable {params : Params} {name : String} {default typed : Option Quantity}

/-- **A quantity parameter** becomes what it holds, or the default if this is nothing. -/
theorem eq (h : TypedQuantity params name default typed) :
    typed = (params.quantity? name).or default := by
  cases h with
  | @effect e effect q h hq =>
      have hreads := DraftEffect.reads_of_validate h
      have hvalue : q = e.params.quantityOrOne "value" := by
        cases hkind : effect.kind <;> rw [hkind] at hreads hq
        case editHand | modifyBlind =>
          obtain rfl := Option.some.inj hq
          exact hreads
        all_goals cases hq
      rw [hvalue, Params.quantityOrOne]
      cases e.params.quantity? "value" <;> rfl
  | condition h => rw [DraftCondition.count_of_validate h, Option.or_none]

/-- **What a quantity parameter holds** tells what it becomes. An integer keeps its value if some
number has this value. -/
theorem of_lookup (h : TypedQuantity params name default typed) :
    (∀ j, params.lookup name = some j → j.IsStructured →
        ∃ q, typed = some q ∧ Source.ofQuantity q = .unresolved ∧ q.AlwaysZero) ∧
      (∀ n, params.lookup name = some (.float n) → typed = some (.number n)) ∧
      (∀ i : ℤ, params.lookup name = some (.int i) → i.natAbs < 2 ^ 1023 →
        ∃ n, typed = some (.number n) ∧ n.IsNearest i ∧
          ∀ m : Number, m.isFinite = true → m.value = i → n.value = i) ∧
      (params.lookup name ∈ [none, some .null, some (.str "")] → typed = default) := by
  have heq := h.eq
  rw [Params.quantity?] at heq
  refine ⟨fun j hj hstructured => ?_, fun n hn => ?_, fun i hi hsmall => ?_, fun hnothing => ?_⟩
  · rw [hj, Option.bind_some, hstructured.quantityOf?, Option.some_or] at heq
    have hunresolved := hstructured.ofQuantity
    exact ⟨_, heq, hunresolved, alwaysZero_of_unresolved hunresolved⟩
  · rw [heq, hn]
    rfl
  · have hnearest := Number.isNearest_ofInt hsmall
    refine ⟨Number.ofInt i, ?_, hnearest, fun m => hnearest.value_eq⟩
    rw [heq, hi]
    rfl
  · simp only [List.mem_cons, List.not_mem_nil, or_false] at hnothing
    rcases hnothing with hnone | hnull | hempty
    · rw [heq, hnone]
      rfl
    · rw [heq, hnull]
      rfl
    · rw [heq, hempty]
      rfl

/-- A change of the number of hands with a value. -/
def handsDraft (value : Json) : DraftEffect :=
  { id := "hands", kind := "edit_hand", params := [("value", value)] }

/-- The effect of `handsDraft`. -/
def handsEffect (value : Quantity) : Effect := { id := ⟨"hands"⟩, kind := .editHand { value } }

theorem typedQuantity_handsDraft (value : Json) :
    TypedQuantity (handsDraft value).params "value" (some (.number Number.one))
      (some ((handsDraft value).params.quantityOrOne "value")) :=
  have hvalid : (handsDraft value).validate =
      .ok (handsEffect ((handsDraft value).params.quantityOrOne "value")) :=
    rfl
  .effect hvalid rfl

/-- The largest odd number. -/
def largestOdd : Number := ⟨false, ⟨1075, by decide⟩, ⟨4503599627370495, by decide⟩⟩

theorem value_largestOdd : largestOdd.value = (9007199254740991 : ℤ) := by
  have hnumerator : largestOdd.numerator = 9007199254740991 := by decide +kernel
  have hdenominator : largestOdd.denominator = 1 := by decide +kernel
  rw [Number.value, hnumerator, hdenominator, largestOdd]
  norm_num

/-- The boolean `true` is always zero, and the largest integer of 53 bits keeps its value. -/
theorem of_lookup_handsDraft :
    ((handsDraft (.bool true)).params.quantityOrOne "value").AlwaysZero ∧
      ∃ n, (handsDraft (.int 9007199254740991)).params.quantityOrOne "value" = .number n ∧
        n.value = (9007199254740991 : ℤ) := by
  obtain ⟨hstructured, -, -, -⟩ := of_lookup (typedQuantity_handsDraft (.bool true))
  obtain ⟨-, -, hint, -⟩ := of_lookup (typedQuantity_handsDraft (.int 9007199254740991))
  constructor
  · obtain ⟨q, hq, -, hzero⟩ := hstructured (.bool true) rfl (.bool true)
    rw [Option.some.inj hq]
    exact hzero
  · have hbits : (9007199254740991 : ℤ).natAbs < 2 ^ 53 := by norm_num
    have hpower (k : ℕ) (hk : 53 ≤ k) : 2 ^ 53 ≤ 2 ^ k := Nat.pow_le_pow_right Nat.two_pos hk
    obtain ⟨n, hn, -, hkeeps⟩ :=
      hint 9007199254740991 rfl (hbits.trans_le (hpower _ (by omega)))
    exact ⟨n, Option.some.inj hn, hkeeps largestOdd rfl value_largestOdd⟩

/-- **An integer of more than 53 bits may lose its value**: the nearest number has another one. -/
theorem exists_typedQuantity_rounded :
    ∃ (params : Params) (n : Number) (i : ℤ),
      TypedQuantity params "value" (some (.number Number.one)) (some (.number n)) ∧
        params.lookup "value" = some (.int i) ∧ n.isFinite = true ∧ n.value ≠ i := by
  have hint : Number.ofInt 9007199254740993 = ⟨false, 1076, 0⟩ := by decide +kernel
  refine ⟨_, Number.ofInt 9007199254740993, 9007199254740993,
    typedQuantity_handsDraft (.int 9007199254740993), rfl, ?_, ?_⟩
  · rw [hint]
    rfl
  · have hnumerator : (⟨false, 1076, 0⟩ : Number).numerator = 9007199254740992 := by decide +kernel
    have hdenominator : (⟨false, 1076, 0⟩ : Number).denominator = 1 := by decide +kernel
    rw [hint, Number.value, hnumerator, hdenominator]
    norm_num

end TypedQuantity

end JokerScript
