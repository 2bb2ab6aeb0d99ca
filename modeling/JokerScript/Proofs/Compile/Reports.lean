import JokerScript.Proofs.Compile.FailedRules
import JokerScript.Proofs.Compile.Jokers

/-!
# Reported Rules

Which rules are reported does not depend on what was compiled before them: these are the rules
with a misfit, in whatever joker they stand. So the mod without the reported rules is the mod of
the rules that fit.

## Main definitions

* `Joker.fitting` — a joker without its rules that do not fit.

## Main results

* `JokerProgress.report?_eq` — the report about one rule.
* `withoutReported_eq` — the mod without the reported rules.
-/

namespace JokerScript

/-- The joker with those of its rules that have no misfit. -/
def Joker.fitting (joker : Joker) : Joker :=
  { joker with rules := joker.rules.filter fun rule => rule.misfit?.isNone }

namespace JokerProgress

variable (setting : Setting) {progress : JokerProgress}

/-- **A rule is reported exactly if it has a misfit**, whatever the compilation has come to. -/
theorem report?_eq (hledger : progress.ledger.Kept) (hs : progress.storage.Reachable)
    (rule : Rule) : progress.report? setting rule = rule.rejection? setting.joker.id := by
  rw [report?, Rule.compile_eq_standard hledger, Rule.rejection?]
  cases hmisfit : rule.misfit? with
  | some effect =>
      obtain ⟨t, hrun⟩ := Rule.run_compile_of_misfit setting .standard hmisfit hs
      rw [hrun]
      rfl
  | none =>
      obtain ⟨code, t, hrun, -⟩ := Rule.run_compile_of_fits setting .standard hmisfit hs
      rw [hrun]
      rfl

theorem reports_eq (hledger : progress.ledger.Kept) (hs : progress.storage.Reachable)
    (rules : List Rule) :
    progress.reports setting rules = rules.map (Rule.rejection? setting.joker.id) := by
  induction rules generalizing progress with
  | nil => rfl
  | cons rule rules ih =>
      obtain ⟨next, hstep, hkept, hnext, -⟩ := step_of_reachable setting hledger hs rule
      rw [reports, report?_eq setting hledger hs, hstep, List.map_cons]
      exact congrArg _ (ih hkept hnext)

end JokerProgress

/-- The rules in the places without a report are those that fit. -/
theorem unreported_map_rejection? (joker : JokerId) (rules : List Rule) :
    unreported rules (rules.map (Rule.rejection? joker)) =
      rules.filter fun rule => rule.misfit?.isNone := by
  induction rules with
  | nil => rfl
  | cons rule rules ih =>
      rw [List.map_cons, Rule.rejection?]
      cases hmisfit : rule.misfit? with
      | none => rw [Option.map_none, unreported, ih, List.filter_cons_of_pos (by rw [hmisfit]; rfl)]
      | some effect =>
          rw [Option.map_some, unreported, ih,
            List.filter_cons_of_neg (by rw [hmisfit]; exact Bool.false_ne_true)]

section Mods

variable (naming : Naming) {ledger : HookLedger}

theorem Joker.without_reports (hledger : ledger.Kept) {joker : Joker}
    (h : joker.numberNames.Nodup) :
    joker.without (joker.reports naming ledger) = joker.fitting := by
  obtain ⟨start, hstart, -⟩ := Storage.ofJoker_of_nodup h
  rw [reports, hstart]
  simp only
  rw [JokerProgress.reports_eq ⟨joker, naming⟩ hledger (Storage.Reachable.ofJoker hstart), without,
    unreported_map_rejection?, fitting]

/-- **The mod without the reported rules** is the mod of the rules that fit. -/
theorem withoutReported_eq (hledger : ledger.Kept) {jokers : List Joker}
    (h : ∀ joker ∈ jokers, joker.numberNames.Nodup) :
    withoutReported naming ledger jokers = jokers.map Joker.fitting := by
  induction jokers generalizing ledger with
  | nil => rfl
  | cons joker jokers ih =>
      rw [List.forall_mem_cons] at h
      obtain ⟨start, next, -, hcompile, hnext⟩ := Joker.compile_of_nodup naming hledger h.1 []
      rw [withoutReported, reports, hcompile, List.zipWith_cons_cons,
        Joker.without_reports naming hledger h.1, List.map_cons]
      exact congrArg _ (ih hnext h.2)

end Mods

end JokerScript
