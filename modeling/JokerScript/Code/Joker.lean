import JokerScript.Code.Rule

/-!
# The Code of Jokers

The rules of a joker are compiled in order, on the storage of the joker. A rule that fails
leaves no variable, no name and no hook request behind, and is reported.

## Main definitions

* `JokerCode` — the code of a joker.
* `JokerProgress.step` — one more rule.
* `Joker.compile` — all rules of a joker.
-/

namespace JokerScript

/-- The code of a joker. -/
structure JokerCode where
  key : JokerKey
  /-- The variables, those of the author first. -/
  vars : List StoredVariable
  /-- The rules that were compiled, in order. -/
  rules : List RuleCode
  failures : List RuleFailure

/-- How far the compilation of a joker has come. -/
structure JokerProgress where
  storage : Storage
  ledger : HookLedger
  rules : List RuleCode
  failures : List RuleFailure

namespace JokerProgress

/-- Compile one more rule. A rule that fails changes nothing but the failures. -/
def step (setting : Setting) (progress : JokerProgress) (rule : Rule) :
    Except CompileError JokerProgress :=
  match (rule.compile setting progress.ledger).run progress.storage with
  | (.ok code, storage) => do
    let ledger ← progress.ledger.addAll code.hooks
    return { progress with storage, ledger, rules := progress.rules ++ [code] }
  | (.error error, _) =>
    return { progress with
      failures := progress.failures ++ [RuleFailure.ofError setting.joker.id rule.id error] }

end JokerProgress

/-- Compile a joker that already has some failures. The ledger gains the requests of
its rules. -/
def Joker.compile (naming : Naming) (ledger : HookLedger) (joker : Joker)
    (failures : List RuleFailure) : Except CompileError (JokerCode × HookLedger) := do
  let storage ← Storage.ofJoker joker
  let start : JokerProgress := { storage, ledger, rules := [], failures }
  let done ← joker.rules.foldlM (JokerProgress.step ⟨joker, naming⟩) start
  return ({ key := joker.key, vars := done.storage.declared, rules := done.rules,
            failures := done.failures }, done.ledger)

end JokerScript
