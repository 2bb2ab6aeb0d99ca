import Mathlib.Data.List.ReduceOption
import JokerScript.Rendered.Basic

/-!
# Failed Rules Leave No Trace

A rule that fails is reported and changes nothing else: the names it claimed, the variables
it declared and the hook requests it made are all forgotten. So a mod without the reported
rules compiles to the same texts, with nothing to report. Later rules see the same storage
and the same ledger at every point, whatever failed before them and in whatever joker.

## Main definitions

* `JokerProgress.report?` — the report about a rule, if it fails.
* `reports` — the reports about all rules of a mod, in their places.
* `withoutReported` — the mod without the rules in the reported places.

## Main results

* `JokerProgress.foldlM_unreported` — the rules of one joker.
* `compileJokers_withoutReported` — the jokers of a mod, and the ledger that they share.
* `renderMod_withoutReported` — the texts of a mod.
-/

namespace JokerScript

/-! ### Reports -/

namespace JokerProgress

/-- The **report** about a rule that fails when the compilation of its joker has come so
far; there is none about other rules. -/
def report? (setting : Setting) (progress : JokerProgress) (rule : Rule) : Option RuleFailure :=
  match (rule.compile setting progress.ledger).run progress.storage with
  | (.ok _, _) => none
  | (.error error, _) => some (RuleFailure.ofError setting.joker.id rule.id error)

/-- The reports about rules that are compiled one after the other. -/
def reports (setting : Setting) : JokerProgress → List Rule → List (Option RuleFailure)
  | _, [] => []
  | progress, rule :: rest =>
    progress.report? setting rule ::
      match progress.step setting rule with
      | .ok next => reports setting next rest
      | .error _ => rest.map fun _ => none

end JokerProgress

/-- The reports about the rules of a joker. -/
def Joker.reports (naming : Naming) (ledger : HookLedger) (joker : Joker) :
    List (Option RuleFailure) :=
  match Storage.ofJoker joker with
  | .ok storage =>
    JokerProgress.reports ⟨joker, naming⟩ { storage, ledger, rules := [], failures := [] }
      joker.rules
  | .error _ => joker.rules.map fun _ => none

/-- The reports about the rules of jokers that share a ledger. -/
def reports (naming : Naming) : HookLedger → List Joker → List (List (Option RuleFailure))
  | _, [] => []
  | ledger, joker :: rest =>
    joker.reports naming ledger ::
      match joker.compile naming ledger [] with
      | .ok (_, next) => reports naming next rest
      | .error _ => rest.map fun joker => joker.rules.map fun _ => none

/-- The rules in the places without a report. -/
def unreported : List Rule → List (Option RuleFailure) → List Rule
  | rule :: rules, none :: reports => rule :: unreported rules reports
  | _ :: rules, some _ :: reports => unreported rules reports
  | _, _ => []

/-- The joker without the rules in the reported places. -/
def Joker.without (joker : Joker) (reports : List (Option RuleFailure)) : Joker :=
  { joker with rules := unreported joker.rules reports }

/-- The jokers without the rules in the reported places. -/
def withoutReported (naming : Naming) (ledger : HookLedger) (jokers : List Joker) : List Joker :=
  jokers.zipWith Joker.without (reports naming ledger jokers)

/-! ### Rules -/

namespace JokerProgress

variable {setting : Setting} {progress next : JokerProgress} {rule : Rule}

/-- The progress, but with nothing to report so far. -/
def cleared (progress : JokerProgress) : JokerProgress := { progress with failures := [] }

/-- **A rule that fails changes nothing but the failures.** -/
theorem step_of_report {report : RuleFailure}
    (h : progress.report? setting rule = some report) :
    progress.step setting rule =
      .ok { progress with failures := progress.failures ++ [report] } := by
  rw [report?] at h
  rcases hrun : (rule.compile setting progress.ledger).run progress.storage with ⟨result, storage⟩
  rw [hrun] at h
  cases result with
  | ok code => cases h
  | error error =>
      obtain rfl := Option.some.inj h
      rw [step, hrun]
      rfl

/-- Every rule has its place among the reports. -/
theorem length_reports (setting : Setting) (progress : JokerProgress) (rules : List Rule) :
    (progress.reports setting rules).length = rules.length := by
  induction rules generalizing progress with
  | nil => rfl
  | cons rule rules ih =>
      rw [reports, List.length_cons, List.length_cons]
      split
      · rw [ih]
      · rw [List.length_map]

/-- A rule that does not fail is compiled in the same way whatever was reported before. -/
theorem step_of_no_report (h : progress.report? setting rule = none)
    (hstep : progress.step setting rule = .ok next) :
    next.failures = progress.failures ∧ progress.cleared.step setting rule = .ok next.cleared := by
  rw [report?] at h
  rw [step] at hstep
  split at h
  · rename_i code storage hrun
    rw [hrun] at hstep
    cases hadd : progress.ledger.addAll code.hooks with
    | error e =>
        simp only [hadd] at hstep
        cases hstep
    | ok ledger =>
        simp only [hadd] at hstep
        obtain rfl := Except.ok.inj hstep
        refine ⟨rfl, ?_⟩
        have hrun' : (rule.compile setting progress.cleared.ledger).run progress.cleared.storage =
            (.ok code, storage) := hrun
        have hadd' : progress.cleared.ledger.addAll code.hooks = .ok ledger := hadd
        rw [step, hrun']
        simp only [hadd']
        rfl
  · cases h

/-- **The rules of one joker.** Without the reported ones, the storage, the ledger and the
codes come out the same, and the failures are just the reports. -/
theorem foldlM_unreported {rules : List Rule} {done : JokerProgress}
    (h : rules.foldlM (step setting) progress = .ok done) :
    done.failures = progress.failures ++ (progress.reports setting rules).reduceOption ∧
      (unreported rules (progress.reports setting rules)).foldlM (step setting)
        progress.cleared = .ok done.cleared := by
  induction rules generalizing progress with
  | nil =>
      obtain rfl := Except.ok.inj h
      exact ⟨by simp [reports], rfl⟩
  | cons rule rules ih =>
      rw [List.foldlM_cons] at h
      cases hstep : progress.step setting rule with
      | error e =>
          rw [hstep] at h
          cases h
      | ok next =>
          rw [hstep] at h
          obtain ⟨hfailures, hrest⟩ := ih h
          cases hreport : progress.report? setting rule with
          | none =>
              obtain ⟨hsame, hcleared⟩ := step_of_no_report hreport hstep
              rw [reports, hreport, hstep, hfailures, hsame]
              refine ⟨rfl, ?_⟩
              rw [unreported, List.foldlM_cons, hcleared]
              exact hrest
          | some report =>
              have hfailed := step_of_report hreport
              rw [hstep] at hfailed
              obtain rfl := Except.ok.inj hfailed
              rw [reports, hreport, hstep, hfailures]
              refine ⟨by simp, ?_⟩
              rw [unreported]
              exact hrest

/-- The compilation of a rule does not look at the other rules of its joker. -/
theorem step_without (joker : Joker) (naming : Naming) (reports : List (Option RuleFailure)) :
    step ⟨joker.without reports, naming⟩ = step ⟨joker, naming⟩ := rfl

end JokerProgress

/-! ### Jokers -/

/-- The code of a joker, but with nothing to report. -/
def JokerCode.cleared (code : JokerCode) : JokerCode := { code with failures := [] }

/-- **The jokers, one by one.** Without its reported rules a joker has the same code and
leaves the same ledger behind. -/
theorem Joker.compile_without {naming : Naming} {ledger last : HookLedger} {joker : Joker}
    {code : JokerCode} (h : joker.compile naming ledger [] = .ok (code, last)) :
    code.failures = (joker.reports naming ledger).reduceOption ∧
      (joker.without (joker.reports naming ledger)).compile naming ledger [] =
        .ok (code.cleared, last) := by
  have hvars : Storage.ofJoker (joker.without (joker.reports naming ledger)) =
      Storage.ofJoker joker := rfl
  rw [compile] at h
  cases hstorage : Storage.ofJoker joker with
  | error e =>
      rw [hstorage] at h
      cases h
  | ok storage =>
      have hreports : joker.reports naming ledger =
          JokerProgress.reports ⟨joker, naming⟩ ⟨storage, ledger, [], []⟩ joker.rules := by
        rw [Joker.reports, hstorage]
      cases hfold : joker.rules.foldlM (JokerProgress.step ⟨joker, naming⟩)
          ⟨storage, ledger, [], []⟩ with
      | error e =>
          simp only [hstorage, bind, Except.bind, hfold] at h
          cases h
      | ok done =>
          simp only [hstorage, bind, Except.bind, hfold] at h
          obtain ⟨rfl, rfl⟩ := Prod.mk.inj (Except.ok.inj h)
          obtain ⟨hfailures, hrest⟩ := JokerProgress.foldlM_unreported hfold
          rw [← hreports, List.nil_append] at hfailures
          rw [← hreports] at hrest
          refine ⟨hfailures, ?_⟩
          have hrest' : (joker.without (joker.reports naming ledger)).rules.foldlM
              (JokerProgress.step ⟨joker.without (joker.reports naming ledger), naming⟩)
              ⟨storage, ledger, [], []⟩ = .ok done.cleared := by
            rw [JokerProgress.step_without]
            exact hrest
          simp only [compile, hvars, hstorage, bind, Except.bind, hrest']
          rfl

/-- Every rule of every joker has its place among the reports. -/
theorem map_length_reports (naming : Naming) (ledger : HookLedger) (jokers : List Joker) :
    (reports naming ledger jokers).map List.length = jokers.map (·.rules.length) := by
  induction jokers generalizing ledger with
  | nil => rfl
  | cons joker jokers ih =>
      have hjoker : (joker.reports naming ledger).length = joker.rules.length := by
        rw [Joker.reports]
        split
        · exact JokerProgress.length_reports _ _ _
        · rw [List.length_map]
      rw [reports, List.map_cons, List.map_cons, hjoker]
      split
      · rw [ih]
      · simp [Function.comp_def]

theorem compileJokers_withoutReported {naming : Naming} {ledger last : HookLedger}
    {jokers : List Joker} {codes : List JokerCode}
    (h : compileJokers naming ledger (jokers.map fun joker => (joker, [])) = .ok (codes, last)) :
    codes.map (·.failures) = (reports naming ledger jokers).map List.reduceOption ∧
      compileJokers naming ledger
          ((withoutReported naming ledger jokers).map fun joker => (joker, [])) =
        .ok (codes.map JokerCode.cleared, last) := by
  induction jokers generalizing ledger codes with
  | nil =>
      obtain ⟨rfl, rfl⟩ := Prod.mk.inj (Except.ok.inj h)
      exact ⟨rfl, rfl⟩
  | cons joker jokers ih =>
      rw [List.map_cons, compileJokers] at h
      cases hjoker : joker.compile naming ledger [] with
      | error e =>
          rw [hjoker] at h
          cases h
      | ok compiled =>
          obtain ⟨code, next⟩ := compiled
          cases hrest : compileJokers naming next (jokers.map fun joker => (joker, [])) with
          | error e =>
              simp only [hjoker, bind, Except.bind, hrest] at h
              cases h
          | ok others =>
              simp only [hjoker, bind, Except.bind, hrest] at h
              obtain ⟨rfl, rfl⟩ := Prod.mk.inj (Except.ok.inj h)
              obtain ⟨hfailures, hcleared⟩ := Joker.compile_without hjoker
              obtain ⟨hothers, hclearedOthers⟩ := ih hrest
              rw [reports, hjoker]
              refine ⟨by rw [List.map_cons, List.map_cons, hfailures, hothers], ?_⟩
              rw [withoutReported, reports, hjoker, List.zipWith_cons_cons, List.map_cons,
                compileJokers]
              rw [withoutReported] at hclearedOthers
              simp only [hcleared, bind, Except.bind, hclearedOthers]
              rfl

/-! ### Mods -/

theorem compile_withoutReported {naming : Naming} {jokers : List Joker} {code : ModCode}
    (h : compile naming jokers = .ok code) :
    code.jokers.map (·.failures) = (reports naming .standard jokers).map List.reduceOption ∧
      compile naming (withoutReported naming .standard jokers) =
        .ok { code with jokers := code.jokers.map JokerCode.cleared } := by
  rw [compile, compileWith] at h
  cases hcodes : compileJokers naming .standard (jokers.map fun joker => (joker, [])) with
  | error e =>
      rw [hcodes] at h
      cases h
  | ok compiled =>
      obtain ⟨codes, ledger⟩ := compiled
      cases hpatches : ledger.patches naming with
      | error e =>
          simp only [hcodes, bind, Except.bind, hpatches] at h
          cases h
      | ok patches =>
          simp only [hcodes, bind, Except.bind, hpatches] at h
          obtain rfl := Except.ok.inj h
          obtain ⟨hfailures, hcleared⟩ := compileJokers_withoutReported hcodes
          refine ⟨hfailures, ?_⟩
          rw [compile, compileWith]
          simp only [hcleared, bind, Except.bind, hpatches]
          rfl

/-- **A failed rule leaves no trace in the texts of a mod.** Every rule has its place among the
reports, and those that there are make up the failures of the output; and without the reported
rules the mod still compiles, to the same keys, variables, rules and replaced functions, with
nothing to report. -/
theorem renderMod_withoutReported {config : Config} {jokers : List Joker} {output : ModText}
    (h : renderMod config jokers = .ok output) :
    (reports config.toNaming .standard jokers).map List.length = jokers.map (·.rules.length) ∧
      output.jokers.map (·.failures) =
        (reports config.toNaming .standard jokers).map List.reduceOption ∧
      renderMod config (withoutReported config.toNaming .standard jokers) =
        .ok { jokers := output.jokers.map fun joker => { joker with failures := [] }
              hooks := output.hooks } := by
  rw [renderMod] at h
  cases hcode : compile config.toNaming jokers with
  | error e =>
      rw [hcode] at h
      cases h
  | ok code =>
      rw [hcode] at h
      obtain rfl := Except.ok.inj h
      obtain ⟨hfailures, hcleared⟩ := compile_withoutReported hcode
      refine ⟨map_length_reports _ _ _, ?_, ?_⟩
      · rw [← hfailures, ModCode.render, List.map_map]
        rfl
      · rw [renderMod, hcleared]
        simp [Except.map, ModCode.render, JokerCode.render, JokerCode.cleared, Function.comp_def]

/-- A joker whose first rule claims and declares a name and then fails. -/
def halfFailing : Joker where
  id := ⟨"joker"⟩
  key := ⟨"fan"⟩
  rules :=
    [{ id := ⟨"bad"⟩
       trigger := .roundEnd
       effects :=
        [{ id := ⟨"first"⟩, kind := .editHand { operation := .add, value := .number Number.one } },
          { id := ⟨"second"⟩, kind := .freeRerolls { amount := Number.one } }] },
      { id := ⟨"good"⟩
        trigger := .roundEnd
        effects :=
          [{ id := ⟨"third"⟩
             kind := .editHand { operation := .add, value := .number Number.two } }] }]

/-- The second rule of `halfFailing` gets the name that the first one gave up. -/
theorem renderMod_withoutReported_halfFailing : ∃ output,
    renderMod {} [halfFailing] = .ok output ∧ output.failures.map (·.rule.text) = ["bad"] ∧
      output.jokers.map (·.vars) = [[⟨"hands", Number.two⟩]] ∧
      renderMod {} (withoutReported {} .standard [halfFailing]) =
        .ok { jokers := output.jokers.map fun joker => { joker with failures := [] }
              hooks := output.hooks } := by
  have hrun : ((renderMod {} [halfFailing]).toOption.map fun output =>
      (output.failures.map (·.rule.text), output.jokers.map (·.vars))) =
      some (["bad"], [[⟨"hands", Number.two⟩]]) := by
    decide +kernel
  cases hok : renderMod {} [halfFailing] with
  | error e =>
      rw [hok] at hrun
      cases hrun
  | ok output =>
      rw [hok] at hrun
      obtain ⟨hfailures, hvars⟩ := Prod.mk.inj (Option.some.inj hrun)
      exact ⟨output, rfl, hfailures, hvars, (renderMod_withoutReported hok).2.2⟩

end JokerScript
