import JokerScript.Proofs.Compile.Jokers
import JokerScript.Proofs.Success
import JokerScript.Rendered.Basic

/-!
# Accounts of Drafts

Every rule of a draft has one **fate**. It is refused if it is not valid, rejected if it is
valid but has a misfit, and compiled otherwise. The output accounts for all of them: it has the
texts of the compiled rules, and a report about each of the refused rules and then about each of
the rejected ones, always in the order of the draft and whatever ids are repeated.

## Main definitions

* `DraftRule.fate`, `DraftRule.report?` — what becomes of a rule.
* `DraftRule.Becomes` — the text of a rule.
* `DraftJoker.Accounts` — the output for a joker accounts for its rules.

## Main results

* `DraftRule.validate_spec` — a valid rule keeps its id, its trigger and its effects.
* `DraftJoker.validateRules_eq` — which rules are valid, and which are refused.
* `renderDrafts_accounts` — the output for the drafts of a mod.
-/

namespace JokerScript

/-! ### Valid rules -/

/-- If there is something to keep for each item, then just that is kept. -/
theorem forall₂_filterMap {α β : Type} {R : α → β → Prop} {f : α → Option β} {as : List α}
    (h : ∀ a ∈ as, ∃ b, f a = some b ∧ R a b) : List.Forall₂ R as (as.filterMap f) := by
  induction as with
  | nil => exact .nil
  | cons a as ih =>
      rw [List.forall_mem_cons] at h
      obtain ⟨b, hb, hab⟩ := h.1
      rw [List.filterMap_cons, hb]
      exact .cons hab (ih h.2)

/-- What corresponds to the images under one function may correspond to those under another. -/
theorem forall₂_map_of_mem {α β γ δ : Type} {R : α → γ → Prop} {S : α → δ → Prop} {f : β → γ}
    {g : β → δ} {as : List α} {bs : List β} (h : List.Forall₂ R as (bs.map f))
    (hS : ∀ b ∈ bs, ∀ a, R a (f b) → S a (g b)) : List.Forall₂ S as (bs.map g) := by
  rw [List.forall₂_map_right_iff] at h
  rw [List.forall₂_map_right_iff]
  exact (((List.forall₂_and_left _ _).mpr ⟨hS, h.flip⟩).imp fun b a hb => hb.1 a hb.2).flip

/-- Only the tag of a value is read as that value. -/
theorem Tagged.tag_of_ofTag? {α : Type} [Tagged α] {s : String} {a : α} (h : ofTag? s = some a) :
    tag a = s := by
  rw [ofTag?] at h
  simpa using List.find?_some h

namespace DraftEffect

/-- The kind of a valid effect has the tag of the draft. -/
theorem tag_of_validKind {e : DraftEffect} {kind : EffectKind} (h : e.validKind = .ok kind) :
    kind.tag = e.kind := by
  rw [validKind] at h
  split at h
  case h_8 => cases h
  all_goals
    rename_i hkind
    rw [hkind]
  case h_1 | h_4 | h_6 =>
    obtain rfl := Except.ok.inj h
    rfl
  all_goals
    obtain ⟨params, -, rfl⟩ := exists_of_map_eq_ok h
    rfl

/-- **A valid effect** keeps its id and its kind. -/
theorem validate_spec {e : DraftEffect} {effect : Effect} (h : e.validate = .ok effect) :
    effect.id = ⟨e.id⟩ ∧ effect.kind.tag = e.kind := by
  obtain ⟨kind, hkind, rfl⟩ := exists_of_map_eq_ok h
  exact ⟨rfl, tag_of_validKind hkind⟩

end DraftEffect

namespace DraftRule

/-- The tag of the trigger of a rule. Without one, or with the empty tag, it is that of a played
hand. -/
def triggerTag (rule : DraftRule) : String :=
  (rule.trigger.filter fun tag => !tag.isEmpty).getD "hand_played"

theorem tag_of_validTrigger {rule : DraftRule} {trigger : Trigger}
    (h : rule.validTrigger = .ok trigger) : Tagged.tag trigger = rule.triggerTag := by
  rw [validTrigger] at h
  rw [triggerTag]
  split at h
  · rename_i hnone
    obtain rfl := Except.ok.inj h
    rw [hnone]
    rfl
  · rename_i tag hsome
    rw [hsome, Option.filter_some]
    cases hempty : tag.isEmpty with
    | true =>
        rw [hempty, if_pos rfl] at h
        obtain rfl := Except.ok.inj h
        rfl
    | false =>
        rw [hempty, if_neg Bool.false_ne_true, Trigger.ofTag] at h
        split at h
        · rename_i htag
          obtain rfl := Except.ok.inj h
          exact Tagged.tag_of_ofTag? htag
        · cases h

/-- **A valid rule** keeps its id and its trigger, and each of its effects. -/
theorem validate_spec {rule : DraftRule} {valid : Rule} (h : rule.validate = .ok valid) :
    valid.id = ⟨rule.id⟩ ∧ Tagged.tag valid.trigger = rule.triggerTag ∧
      List.Forall₂ (fun (draft : DraftEffect) (effect : Effect) =>
        effect.id = ⟨draft.id⟩ ∧ effect.kind.tag = draft.kind) rule.effects valid.effects := by
  obtain ⟨trigger, htrigger, h⟩ := exists_of_bind_eq_ok h
  obtain ⟨groups, -, h⟩ := exists_of_bind_eq_ok h
  obtain ⟨effects, heffects, h⟩ := exists_of_bind_eq_ok h
  obtain rfl := Except.ok.inj h
  refine ⟨rfl, tag_of_validTrigger (mapError_eq_ok htrigger), ?_⟩
  refine (forall₂_of_mapM_eq_ok heffects).imp fun draft effect heffect => ?_
  exact DraftEffect.validate_spec (mapError_eq_ok heffect)

end DraftRule

/-! ### Fates -/

/-- What becomes of a rule of a draft. -/
inductive RuleFate
  /-- It is not valid. -/
  | refused
  /-- It is valid, but an effect does not fit the trigger. -/
  | rejected
  | compiled
deriving DecidableEq, Repr

namespace DraftRule

/-- What becomes of a rule. -/
def fate (rule : DraftRule) : RuleFate :=
  match rule.validate with
  | .error _ => .refused
  | .ok valid => if valid.misfit?.isSome then .rejected else .compiled

/-- The report about a rule that is given up. -/
def report? (joker : JokerId) (rule : DraftRule) : Option RuleFailure :=
  match rule.validate with
  | .error error => some (RuleFailure.ofError joker ⟨rule.id⟩ error)
  | .ok valid => valid.rejection? joker

/-- The text of a rule has its id and its trigger, and a text for each of its effects, with the
id and the kind of the effect. -/
structure Becomes (rule : DraftRule) (text : RuleText) : Prop where
  id : text.ruleId = ⟨rule.id⟩
  trigger : Tagged.tag text.trigger = rule.triggerTag
  effects : List.Forall₂ (fun (effect : DraftEffect) (part : EffectText) =>
    part.effectId = ⟨effect.id⟩ ∧ part.kind = effect.kind) rule.effects text.effects

end DraftRule

namespace DraftJoker

/-- The rules that have a fate, in order. -/
def rulesOf (fate : RuleFate) (draft : DraftJoker) : List DraftRule :=
  draft.rules.filter fun rule => rule.fate = fate

/-- The rules that are given up: first those that are refused, and then those that are
rejected. -/
def givenUp (draft : DraftJoker) : List DraftRule :=
  draft.rulesOf .refused ++ draft.rulesOf .rejected

/-- The reports about the rules that are given up. -/
def reports (draft : DraftJoker) : List RuleFailure :=
  draft.givenUp.filterMap (DraftRule.report? ⟨draft.id⟩)

/-- **The output for a joker accounts for its rules.** -/
structure Accounts (draft : DraftJoker) (text : JokerText) : Prop where
  key : text.key = ⟨draft.key⟩
  rules : List.Forall₂ DraftRule.Becomes (draft.rulesOf .compiled) text.rules
  failures : text.failures = draft.reports
  /-- There is one report about each rule that is given up, with its id. -/
  given : List.Forall₂ (fun (rule : DraftRule) (failure : RuleFailure) =>
    failure.joker = ⟨draft.id⟩ ∧ failure.rule = ⟨rule.id⟩) draft.givenUp text.failures
  /-- No rule is lost, and none is there twice. -/
  total : text.rules.length + text.failures.length = draft.rules.length

end DraftJoker

/-! ### Validation -/

namespace DraftRule

/-- The valid rule of a draft. -/
def valid? (rule : DraftRule) : Option Rule := rule.validate.toOption

/-- The report about a rule that is not valid. -/
def refusal? (joker : JokerId) (rule : DraftRule) : Option RuleFailure :=
  match rule.validate with
  | .error error => some (RuleFailure.ofError joker ⟨rule.id⟩ error)
  | .ok _ => none

/-- **The three fates** of a rule. -/
theorem fate_cases (rule : DraftRule) :
    (∃ error, rule.validate = .error error ∧ rule.fate = .refused) ∨
      (∃ valid effect, rule.validate = .ok valid ∧ valid.misfit? = some effect ∧
        rule.fate = .rejected) ∨
      ∃ valid, rule.validate = .ok valid ∧ valid.misfit? = none ∧ rule.fate = .compiled := by
  rw [fate]
  cases rule.validate with
  | error error => exact Or.inl ⟨error, rfl, rfl⟩
  | ok valid =>
      cases hmisfit : valid.misfit? with
      | some effect => exact Or.inr (Or.inl ⟨valid, effect, rfl, hmisfit, by simp [hmisfit]⟩)
      | none => exact Or.inr (Or.inr ⟨valid, rfl, hmisfit, by simp [hmisfit]⟩)

/-- A rule that is not compiled has a report, which names the joker and the rule. -/
theorem exists_report? (joker : JokerId) {rule : DraftRule} (h : rule.fate ≠ .compiled) :
    ∃ failure, rule.report? joker = some failure ∧ failure.joker = joker ∧
      failure.rule = ⟨rule.id⟩ := by
  rcases rule.fate_cases with ⟨error, hvalid, -⟩ | ⟨valid, effect, hvalid, hmisfit, -⟩ |
    ⟨valid, -, -, hfate⟩
  · rw [report?, hvalid]
    exact ⟨_, rfl, rfl, rfl⟩
  · have hreport : rule.report? joker = some ⟨joker, valid.id, some effect.id,
        effect.missingShape valid.trigger.triggerClass⟩ := by
      simp [report?, hvalid, Rule.rejection?, hmisfit]
    exact ⟨_, hreport, rfl, (validate_spec hvalid).1⟩
  · exact absurd hfate h

/-- The reports about the refused rules are the refusals. -/
theorem filterMap_report?_refused (joker : JokerId) (rules : List DraftRule) :
    (rules.filter fun rule => rule.fate = .refused).filterMap (report? joker) =
      rules.filterMap (refusal? joker) := by
  rw [List.filterMap_filter]
  refine List.filterMap_congr fun rule _ => ?_
  rcases rule.fate_cases with ⟨error, hvalid, hfate⟩ | ⟨valid, effect, hvalid, -, hfate⟩ |
    ⟨valid, hvalid, -, hfate⟩ <;> simp [hfate, report?, refusal?, hvalid]

/-- The reports about the rejected rules are the rejections of the valid ones. -/
theorem filterMap_report?_rejected (joker : JokerId) (rules : List DraftRule) :
    (rules.filter fun rule => rule.fate = .rejected).filterMap (report? joker) =
      (rules.filterMap valid?).filterMap (Rule.rejection? joker) := by
  rw [List.filterMap_filter, List.filterMap_filterMap]
  refine List.filterMap_congr fun rule _ => ?_
  rcases rule.fate_cases with ⟨error, hvalid, hfate⟩ | ⟨valid, effect, hvalid, -, hfate⟩ |
    ⟨valid, hvalid, hmisfit, hfate⟩
  · simp [hfate, valid?, hvalid, Except.toOption]
  · simp [hfate, report?, valid?, hvalid, Except.toOption]
  · simp [hfate, valid?, hvalid, Except.toOption, Rule.rejection?, hmisfit]

/-- The compiled rules are the valid ones without a misfit. -/
theorem forall₂_compiled (rules : List DraftRule) :
    List.Forall₂ (fun (rule : DraftRule) (valid : Rule) => rule.validate = .ok valid)
      (rules.filter fun rule => rule.fate = .compiled)
      ((rules.filterMap valid?).filter fun valid => valid.misfit?.isNone) := by
  induction rules with
  | nil => exact .nil
  | cons rule rules ih =>
      rcases rule.fate_cases with ⟨error, hvalid, hfate⟩ | ⟨valid, effect, hvalid, hmisfit, hfate⟩ |
        ⟨valid, hvalid, hmisfit, hfate⟩
      · simpa [hfate, valid?, hvalid, Except.toOption] using ih
      · simpa [hfate, valid?, hvalid, Except.toOption, hmisfit] using ih
      · simpa [hfate, valid?, hvalid, Except.toOption, hmisfit] using ih

end DraftRule

namespace DraftJoker

/-- **Validation** keeps the valid rules, and reports the others. -/
theorem validateRules_eq (joker : JokerId) (rules : List DraftRule) :
    validateRules joker rules =
      (rules.filterMap DraftRule.valid?, rules.filterMap (DraftRule.refusal? joker)) := by
  induction rules with
  | nil => rfl
  | cons rule rules ih =>
      rw [validateRules, ih, List.filterMap_cons, List.filterMap_cons, DraftRule.valid?,
        DraftRule.refusal?]
      cases rule.validate <;> rfl

variable {draft : DraftJoker}

/-- Every rule that is given up has a report, which names it. -/
theorem forall₂_reports (draft : DraftJoker) :
    List.Forall₂ (fun (rule : DraftRule) (failure : RuleFailure) =>
      failure.joker = ⟨draft.id⟩ ∧ failure.rule = ⟨rule.id⟩) draft.givenUp draft.reports := by
  refine forall₂_filterMap fun rule hrule => DraftRule.exists_report? ⟨draft.id⟩ ?_
  rw [givenUp, rulesOf, rulesOf, List.mem_append, List.mem_filter, List.mem_filter] at hrule
  rcases hrule with ⟨-, hfate⟩ | ⟨-, hfate⟩
  · rw [of_decide_eq_true hfate]
    exact nofun
  · rw [of_decide_eq_true hfate]
    exact nofun

/-- Every rule has one fate. -/
theorem length_rulesOf (draft : DraftJoker) :
    (draft.rulesOf .compiled).length + draft.givenUp.length = draft.rules.length := by
  rw [givenUp, List.length_append, rulesOf, rulesOf, rulesOf]
  induction draft.rules with
  | nil => rfl
  | cons rule rules ih =>
      cases hfate : rule.fate <;> simp [hfate] <;> omega

end DraftJoker

/-! ### Outputs -/

namespace DraftJoker

variable {naming : Naming} {draft : DraftJoker} {code : JokerCode}

theorem validate_eq (draft : DraftJoker) :
    draft.validate =
      ({ id := ⟨draft.id⟩, key := ⟨draft.key⟩, name := draft.name,
         rules := draft.rules.filterMap DraftRule.valid?,
         vars := draft.vars.map DraftVariable.validate },
        draft.rules.filterMap (DraftRule.refusal? ⟨draft.id⟩)) := by
  rw [validate, validateRules_eq]

/-- The reports are those of the validation, and then those of the compilation. -/
theorem reports_eq (draft : DraftJoker) :
    draft.reports = draft.validate.2 ++
      draft.validate.1.rules.filterMap (Rule.rejection? ⟨draft.id⟩) := by
  rw [reports, givenUp, rulesOf, rulesOf, List.filterMap_append,
    DraftRule.filterMap_report?_refused, DraftRule.filterMap_report?_rejected, validate_eq]

/-- A compiled rule becomes its text. -/
theorem becomes_of_makes {setting : Setting} {rule : DraftRule} {valid : Rule} {s t : Storage}
    {code : RuleCode} (width : Nat) (hvalid : rule.validate = .ok valid) (hs : s.Reachable)
    (hmakes : valid.Makes setting s code t) : rule.Becomes (code.render width) := by
  obtain ⟨hid, htrigger, heffects⟩ := DraftRule.validate_spec hvalid
  refine
    { id := hmakes.id.trans hid
      trigger := (congrArg Tagged.tag hmakes.trigger).trans htrigger
      effects := ?_ }
  rw [← hmakes.items] at heffects
  rw [RuleCode.render, hmakes.effects, List.map_map]
  refine forall₂_map_of_mem heffects fun turn hturn effect heffect => ?_
  obtain ⟨hid, hkind, -⟩ := Effect.turn_spec setting (Rule.conditions_spec setting valid hs).1 hturn
  exact ⟨hid.trans heffect.1, hkind.trans heffect.2⟩

/-- The compiled rules become the texts of the joker. -/
theorem forall₂_becomes (width : Nat) {start : Storage} (hstart : start.Reachable) :
    List.Forall₂ DraftRule.Becomes (draft.rulesOf .compiled)
      ((draft.validate.1.ruleTurns naming start).map fun turn => turn.code.render width) := by
  have hrules : draft.validate.1.rules = draft.rules.filterMap DraftRule.valid? := by
    rw [validate_eq]
  have hcompiled := DraftRule.forall₂_compiled draft.rules
  rw [← hrules, ← Joker.map_item_ruleTurns naming draft.validate.1 hstart] at hcompiled
  refine forall₂_map_of_mem hcompiled fun turn hturn rule hvalid => ?_
  obtain ⟨hbefore, hmakes⟩ := Joker.ruleTurn_spec hstart hturn
  exact becomes_of_makes width hvalid hbefore hmakes

/-- **The output for a joker accounts for its rules.** -/
theorem accounts_of_compilesTo (width : Nat) (h : CompilesTo naming draft.validate code) :
    draft.Accounts (code.render width) := by
  obtain ⟨start, hstart, rfl⟩ := h
  have hrules : List.Forall₂ DraftRule.Becomes (draft.rulesOf .compiled)
      ((draft.validate.1.codeFrom naming start draft.validate.2).render width).rules := by
    rw [JokerCode.render, Joker.codeFrom, List.map_map]
    exact forall₂_becomes width (Storage.Reachable.ofJoker hstart)
  have hid : draft.validate.1.id = ⟨draft.id⟩ := by
    rw [validate_eq]
  have hfailures : ((draft.validate.1.codeFrom naming start
      draft.validate.2).render width).failures = draft.reports := by
    rw [reports_eq, ← hid]
    rfl
  refine
    { key := ?_
      rules := hrules
      failures := hfailures
      given := hfailures ▸ forall₂_reports draft
      total := ?_ }
  · rw [JokerCode.render, Joker.codeFrom, validate_eq]
  · rw [← hrules.length_eq, hfailures, ← (forall₂_reports draft).length_eq, length_rulesOf]

/-- The failures of jokers that are accounted for are their reports. -/
theorem flatMap_failures {drafts : List DraftJoker} {texts : List JokerText}
    (h : List.Forall₂ Accounts drafts texts) :
    texts.flatMap (·.failures) = drafts.flatMap reports := by
  induction h with
  | nil => rfl
  | cons hdraft _ ih => rw [List.flatMap_cons, List.flatMap_cons, hdraft.failures, ih]

end DraftJoker

/-- **The output accounts for the drafts of a mod.** There is an output for each joker, in order.
No rule and no effect is lost, is there twice or has changed its place, whatever the drafts are,
and the failures of the output are the reports of its jokers. -/
theorem renderDrafts_accounts {config : Config} {drafts : List DraftJoker} {output : ModText}
    (h : renderDrafts config drafts = .ok output) :
    List.Forall₂ DraftJoker.Accounts drafts output.jokers ∧
      output.failures = drafts.flatMap DraftJoker.reports := by
  obtain ⟨code, hcode, rfl⟩ := exists_of_map_eq_ok h
  obtain ⟨-, hjokers⟩ := compilesTo_of_compileWith hcode
  have haccounts : List.Forall₂ DraftJoker.Accounts drafts
      (code.render config.indentWidth).jokers := by
    rw [ModCode.render, List.forall₂_map_right_iff]
    rw [List.forall₂_map_left_iff] at hjokers
    exact hjokers.imp fun draft code => DraftJoker.accounts_of_compilesTo config.indentWidth
  exact ⟨haccounts, DraftJoker.flatMap_failures haccounts⟩

/-- A joker whose rules have all fates, and whose ids are repeated. -/
def mixedDraft : DraftJoker where
  id := "joker"
  key := "mixed"
  rules :=
    [{ id := "same"
       trigger := some "round_end"
       effects := [{ id := "rerolls", kind := "free_rerolls" }] },
      { id := "same", trigger := some "sometimes" },
      { id := "same"
        trigger := some ""
        effects :=
          [{ id := "twice", kind := "create_joker" }, { id := "twice", kind := "edit_hand" }] },
      { id := "other", effects := [{ id := "dance", kind := "dance" }] }]

/-- The reports about the rules of `mixedDraft`. -/
def mixedReports : List RuleFailure :=
  [⟨⟨"joker"⟩, ⟨"same"⟩, none, .unknownTrigger "sometimes"⟩,
    ⟨⟨"joker"⟩, ⟨"other"⟩, some ⟨"dance"⟩, .unknownEffectKind "dance"⟩,
    ⟨⟨"joker"⟩, ⟨"same"⟩, some ⟨"rerolls"⟩, .missingTriggerClassShape "free_rerolls" .immediate⟩]

/-- The refused rules of `mixedDraft` are reported before the rejected one. -/
theorem renderDrafts_accounts_mixedDraft : ∃ output text,
    renderDrafts {} [mixedDraft] = .ok output ∧ output.jokers = [text] ∧
      mixedDraft.Accounts text ∧ text.rules.map (·.ruleId) = [⟨"same"⟩] ∧
      output.failures = mixedReports := by
  have hrun : ((renderDrafts {} [mixedDraft]).toOption.map fun output =>
      output.jokers.map fun text => text.rules.map (·.ruleId)) = some [[⟨"same"⟩]] := by
    decide +kernel
  cases hok : renderDrafts {} [mixedDraft] with
  | error e =>
      rw [hok] at hrun
      cases hrun
  | ok output =>
      rw [hok] at hrun
      have hids : output.jokers.map (fun text => text.rules.map (·.ruleId)) = [[⟨"same"⟩]] :=
        Option.some.inj hrun
      obtain ⟨haccounts, hfailures⟩ := renderDrafts_accounts hok
      obtain ⟨text, rest, hjoker, hrest, hjokers⟩ := List.forall₂_cons_left_iff.mp haccounts
      rw [List.forall₂_nil_left_iff.mp hrest] at hjokers
      rw [hjokers] at hids
      have hreports : DraftJoker.reports mixedDraft = mixedReports := by
        decide +kernel
      refine ⟨output, text, rfl, hjokers, hjoker, (List.cons.inj hids).1, ?_⟩
      rw [hfailures, List.flatMap_cons, hreports]
      rfl

end JokerScript
