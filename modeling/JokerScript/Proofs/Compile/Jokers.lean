import JokerScript.Code.Mod
import JokerScript.Proofs.Compile.Rules
import JokerScript.Proofs.Storage.Adopted

/-!
# Outcomes of Jokers

The compilation of a joker is told by the turns of its rules. It fails only before the first
of them, if a number is repeated; a rule with a misfit is **rejected**, and any other rule has
its turn. The ledger that the jokers of a mod share stays kept, so neither a request nor the
replacements at the end fail.

## Main definitions

* `Joker.ruleTurns` — the turns of the rules of a joker.
* `Rule.rejection?` — the report about a rule with a misfit.
* `Joker.codeFrom` — the code that the turns make up.

## Main results

* `Joker.compile_of_nodup`, `Joker.compile_of_isFirstRepeat` — the outcomes of a joker.
* `compileWith_of_nodup`, `compileWith_of_isFirstRepeat` — the outcomes of a mod.
-/

namespace JokerScript

/-! ### Turns of rules -/

/-- Kept ledgers make no difference to the compilation of a rule. -/
theorem Rule.compile_eq_standard {ledger : HookLedger} (hledger : ledger.Kept) (setting : Setting) :
    Rule.compile setting ledger = Rule.compile setting .standard := by
  have hcheck : ledger.check = HookLedger.standard.check := by
    funext request
    rw [hledger.check_eq, HookLedger.Kept.standard.check_eq]
  funext rule
  unfold Rule.compile Effect.compileIn
  rw [hcheck]

/-- What is known of a rule that was compiled. -/
theorem Rule.makes_of_run_compile {setting : Setting} {rule : Rule} {s t : Storage}
    {code : RuleCode} (hs : s.Reachable)
    (hrun : (rule.compile setting .standard).run s = (.ok code, t)) :
    rule.misfit? = none ∧ rule.Makes setting s code t := by
  cases hmisfit : rule.misfit? with
  | some effect =>
      obtain ⟨u, herror⟩ := run_compile_of_misfit setting .standard hmisfit hs
      rw [herror] at hrun
      cases hrun
  | none =>
      obtain ⟨code', t', hrun', hmakes⟩ := run_compile_of_fits setting .standard hmisfit hs
      rw [hrun] at hrun'
      cases hrun'
      exact ⟨rfl, hmakes⟩

/-- Compiling a rule only extends the storage. -/
theorem Rule.orderly_compile (setting : Setting) : Orderly (Rule.compile setting .standard) :=
  fun _ _ _ _ hs hrun => (makes_of_run_compile hs hrun).2.reachable hs

namespace Rule

/-- The report about a rule with a misfit. -/
def rejection? (joker : JokerId) (rule : Rule) : Option RuleFailure :=
  rule.misfit?.map fun effect =>
    ⟨joker, rule.id, some effect.id, effect.missingShape rule.trigger.triggerClass⟩

end Rule

/-! ### Steps -/

namespace JokerProgress

variable (setting : Setting) {progress : JokerProgress} {rule : Rule}

/-- The requests of a rule that was compiled are filed under the category of their change. -/
theorem check_hooks {s t : Storage} {code : RuleCode} (hs : s.Reachable)
    (hmakes : rule.Makes setting s code t) : ∀ request ∈ code.hooks, request.check = .ok () := by
  intro request hrequest
  obtain ⟨effectCode, heffect, hhook⟩ := List.mem_filterMap.mp hrequest
  rw [hmakes.effects] at heffect
  obtain ⟨turn, hturn, rfl⟩ := List.mem_map.mp heffect
  obtain ⟨-, -, heffectMakes⟩ :=
    Effect.turn_spec setting (Rule.conditions_spec setting rule hs).1 hturn
  exact EffectKind.check_hook? request (heffectMakes.hook ▸ hhook)

/-- **One step.** A rule with a misfit is only reported, and another one is compiled. -/
theorem step_of_reachable (hledger : progress.ledger.Kept) (hs : progress.storage.Reachable)
    (rule : Rule) :
    ∃ next, progress.step setting rule = .ok next ∧ next.ledger.Kept ∧
      next.storage.Reachable ∧
      next.failures = progress.failures ++ (rule.rejection? setting.joker.id).toList ∧
      next.storage = lastStorage progress.storage
        (turns (Rule.compile setting .standard) progress.storage [rule]) ∧
      next.rules = progress.rules ++
        (turns (Rule.compile setting .standard) progress.storage [rule]).map (·.code) := by
  rw [step, Rule.compile_eq_standard hledger, Rule.rejection?]
  cases hmisfit : rule.misfit? with
  | some effect =>
      obtain ⟨t, hrun⟩ := Rule.run_compile_of_misfit setting .standard hmisfit hs
      rw [hrun, turns_cons_of_error hrun]
      exact ⟨_, rfl, hledger, hs, rfl, rfl, (List.append_nil _).symm⟩
  | none =>
      obtain ⟨code, t, hrun, hmakes⟩ := Rule.run_compile_of_fits setting .standard hmisfit hs
      obtain ⟨ledger, hadd, hkept⟩ := hledger.addAll (check_hooks setting hs hmakes)
      rw [hrun, turns_cons_of_ok hrun]
      simp only [hadd]
      exact ⟨_, rfl, hkept, (hmakes.reachable hs).1, (List.append_nil _).symm, rfl, rfl⟩

/-- **All rules of a joker**: those with a misfit are reported, and the others have their
turns. -/
theorem foldlM_step (progress : JokerProgress) (hledger : progress.ledger.Kept)
    (hs : progress.storage.Reachable) (rules : List Rule) :
    ∃ done, rules.foldlM (step setting) progress = .ok done ∧ done.ledger.Kept ∧
      done.failures =
        progress.failures ++ rules.filterMap (Rule.rejection? setting.joker.id) ∧
      done.storage = lastStorage progress.storage
        (turns (Rule.compile setting .standard) progress.storage rules) ∧
      done.rules = progress.rules ++
        (turns (Rule.compile setting .standard) progress.storage rules).map (·.code) := by
  induction rules generalizing progress with
  | nil => exact ⟨progress, rfl, hledger, by simp, rfl, by simp⟩
  | cons rule rules ih =>
      obtain ⟨next, hstep, hkept, hnext, hfailures, hstorage, hrules⟩ :=
        step_of_reachable setting hledger hs rule
      obtain ⟨done, hfold, hdone, hdoneFailures, hdoneStorage, hdoneRules⟩ :=
        ih next hkept hnext
      refine ⟨done, by rw [List.foldlM_cons, hstep]; exact hfold, hdone, ?_, ?_, ?_⟩
      · rw [hdoneFailures, hfailures, List.append_assoc, List.filterMap_cons]
        cases rule.rejection? setting.joker.id <;> rfl
      · rw [hdoneStorage, hstorage, ← lastStorage_append, ← turns_append, List.singleton_append]
      · rw [hdoneRules, hrules, hstorage, List.append_assoc, ← List.map_append, ← turns_append,
          List.singleton_append]

end JokerProgress

/-! ### Jokers -/

namespace Joker

/-- The turns of the rules of a joker, from the storage with its variables on. -/
def ruleTurns (naming : Naming) (start : Storage) (joker : Joker) : List (Turn Rule RuleCode) :=
  turns (Rule.compile ⟨joker, naming⟩ .standard) start joker.rules

/-- Just the rules without a misfit have turns. -/
theorem map_item_ruleTurns (naming : Naming) (joker : Joker) {start : Storage}
    (hstart : start.Reachable) :
    (joker.ruleTurns naming start).map (·.item) =
      joker.rules.filter fun rule => rule.misfit?.isNone := by
  refine map_item_turns (Rule.orderly_compile _) (fun rule _ hfits s hs => ?_)
    (fun rule _ hmisfit s hs => ?_) hstart
  · obtain ⟨code, t, hrun, -⟩ :=
      Rule.run_compile_of_fits ⟨joker, naming⟩ .standard (Option.isNone_iff_eq_none.mp hfits) hs
    exact ⟨code, t, hrun⟩
  · obtain ⟨effect, heffect⟩ := Option.isSome_iff_exists.mp (Option.isNone_eq_false_iff.mp hmisfit)
    obtain ⟨t, hrun⟩ := Rule.run_compile_of_misfit ⟨joker, naming⟩ .standard heffect hs
    exact ⟨_, t, hrun⟩

/-- What is known of a turn of a rule. -/
theorem ruleTurn_spec {naming : Naming} {joker : Joker} {start : Storage}
    (hstart : start.Reachable) {turn : Turn Rule RuleCode}
    (h : turn ∈ joker.ruleTurns naming start) :
    turn.before.Reachable ∧
      turn.item.Makes ⟨joker, naming⟩ turn.before turn.code turn.after := by
  have hbefore := (mem_turns_between (Rule.orderly_compile _) hstart h).1
  exact ⟨hbefore, (Rule.makes_of_run_compile hbefore (run_of_mem_turns h).2).2⟩

/-- The code that the turns of the rules make up, after earlier failures. -/
def codeFrom (naming : Naming) (start : Storage) (failures : List RuleFailure) (joker : Joker) :
    JokerCode :=
  { key := joker.key
    vars := (lastStorage start (joker.ruleTurns naming start)).declared
    rules := (joker.ruleTurns naming start).map (·.code)
    failures := failures ++ joker.rules.filterMap (Rule.rejection? joker.id) }

variable (naming : Naming) {ledger : HookLedger} {joker : Joker}

/-- **A joker without a repeated number is compiled.** -/
theorem compile_of_nodup (hledger : ledger.Kept) (h : joker.numberNames.Nodup)
    (failures : List RuleFailure) :
    ∃ start next, Storage.ofJoker joker = .ok start ∧
      joker.compile naming ledger failures = .ok (joker.codeFrom naming start failures, next) ∧
      next.Kept := by
  obtain ⟨start, hstart, -⟩ := Storage.ofJoker_of_nodup h
  obtain ⟨done, hfold, hkept, hfailures, hstorage, hrules⟩ :=
    JokerProgress.foldlM_step ⟨joker, naming⟩ ⟨start, ledger, [], failures⟩ hledger
      (Storage.Reachable.ofJoker hstart) joker.rules
  refine ⟨start, done.ledger, hstart, ?_, hkept⟩
  simp only [compile, hstart, bind, Except.bind, hfold]
  rw [hfailures, hstorage, hrules]
  rfl

/-- **The first repetition of a number is the error.** -/
theorem compile_of_isFirstRepeat {name : String} (h : IsFirstRepeat joker.numberNames name)
    (ledger : HookLedger) (failures : List RuleFailure) :
    joker.compile naming ledger failures = .error (.duplicateConfigVariable name) := by
  rw [compile, Storage.ofJoker_of_isFirstRepeat h]
  rfl

end Joker

/-! ### Mods -/

/-- The code is that of the joker, with its earlier failures. -/
def CompilesTo (naming : Naming) (p : Joker × List RuleFailure) (code : JokerCode) : Prop :=
  ∃ start, Storage.ofJoker p.1 = .ok start ∧ code = p.1.codeFrom naming start p.2

section Mods

variable (naming : Naming)

theorem compileJokers_of_nodup {ledger : HookLedger} (hledger : ledger.Kept)
    {jokers : List (Joker × List RuleFailure)} (h : ∀ p ∈ jokers, p.1.numberNames.Nodup) :
    ∃ codes next, compileJokers naming ledger jokers = .ok (codes, next) ∧ next.Kept ∧
      List.Forall₂ (CompilesTo naming) jokers codes := by
  induction jokers generalizing ledger with
  | nil => exact ⟨[], ledger, rfl, hledger, .nil⟩
  | cons p jokers ih =>
      obtain ⟨joker, failures⟩ := p
      rw [List.forall_mem_cons] at h
      obtain ⟨start, next, hstart, hcompile, hnext⟩ :=
        Joker.compile_of_nodup naming hledger h.1 failures
      obtain ⟨codes, last, hcodes, hlast, hall⟩ := ih hnext h.2
      refine ⟨_ :: codes, last, ?_, hlast, .cons ⟨start, hstart, rfl⟩ hall⟩
      simp only [compileJokers, hcompile, bind, Except.bind, hcodes]
      rfl

theorem compileJokers_of_isFirstRepeat {ledger : HookLedger} (hledger : ledger.Kept)
    {before after : List (Joker × List RuleFailure)} {p : Joker × List RuleFailure}
    {name : String} (h : ∀ p ∈ before, p.1.numberNames.Nodup)
    (hp : IsFirstRepeat p.1.numberNames name) :
    compileJokers naming ledger (before ++ p :: after) =
      .error (.duplicateConfigVariable name) := by
  induction before generalizing ledger with
  | nil =>
      obtain ⟨joker, failures⟩ := p
      rw [List.nil_append, compileJokers, Joker.compile_of_isFirstRepeat naming hp]
      rfl
  | cons q before ih =>
      obtain ⟨joker, failures⟩ := q
      rw [List.forall_mem_cons] at h
      obtain ⟨start, next, -, hcompile, hnext⟩ :=
        Joker.compile_of_nodup naming hledger h.1 failures
      simp only [List.cons_append, compileJokers, hcompile, bind, Except.bind, ih hnext h.2]

/-- **A mod without a repeated number is compiled**, joker by joker. -/
theorem compileWith_of_nodup {jokers : List (Joker × List RuleFailure)}
    (h : ∀ p ∈ jokers, p.1.numberNames.Nodup) :
    ∃ code, compileWith naming jokers = .ok code ∧
      List.Forall₂ (CompilesTo naming) jokers code.jokers := by
  obtain ⟨codes, next, hcodes, hnext, hall⟩ :=
    compileJokers_of_nodup naming .standard h
  have hpatches := hnext.patches_eq naming
  exact ⟨⟨codes, _⟩, by simp only [compileWith, hcodes, bind, Except.bind, hpatches]; rfl, hall⟩

/-- **The first joker with a repeated number is the error.** -/
theorem compileWith_of_isFirstRepeat {before after : List (Joker × List RuleFailure)}
    {p : Joker × List RuleFailure} {name : String} (h : ∀ p ∈ before, p.1.numberNames.Nodup)
    (hp : IsFirstRepeat p.1.numberNames name) :
    compileWith naming (before ++ p :: after) = .error (.duplicateConfigVariable name) := by
  rw [compileWith, compileJokers_of_isFirstRepeat naming .standard h hp]
  rfl

end Mods

/-- A mod that was compiled was compiled joker by joker, and no joker repeats a number. -/
theorem compilesTo_of_compileWith {naming : Naming} {jokers : List (Joker × List RuleFailure)}
    {code : ModCode} (h : compileWith naming jokers = .ok code) :
    (∀ p ∈ jokers, p.1.numberNames.Nodup) ∧
      List.Forall₂ (CompilesTo naming) jokers code.jokers := by
  rcases forall_nodup_or_isFirstRepeat (·.1.numberNames) jokers with
    hall | ⟨before, p, after, name, rfl, hbefore, hp⟩
  · obtain ⟨code', hcode, hjokers⟩ := compileWith_of_nodup naming hall
    obtain rfl := Except.ok.inj (hcode.symm.trans h)
    exact ⟨hall, hjokers⟩
  · rw [compileWith_of_isFirstRepeat naming hbefore hp] at h
    cases h

end JokerScript
