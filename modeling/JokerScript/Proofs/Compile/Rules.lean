import JokerScript.Code.Rule
import JokerScript.Proofs.Condition.Turns
import JokerScript.Proofs.Effect.Outcome
import JokerScript.Proofs.Hook.Ledger

/-!
# Outcomes of Rules

A rule fails only at a **misfit**: an effect whose kind has no shape for the class of the
trigger. The first misfit is blamed. Without one the rule is compiled, from every reachable
storage and with every kept ledger: its conditions have their turns, and then its effects.

## Main definitions

* `Rule.misfit?` — the first effect that does not fit the trigger.
* `Rule.effectTurns` — the turns of the effects of a rule.
* `Rule.Makes` — what the compilation of a rule makes.

## Main results

* `Rule.run_compile_of_fits`, `Rule.run_compile_of_misfit` — the outcomes.
-/

namespace JokerScript

open Lua

/-! ### Blame -/

/-- A failure is blamed on the place, and nothing else changes. -/
theorem RuleCompiler.run_blaming {α : Type} (place : Option EffectId) (x : Resolver α)
    (s : Storage) :
    (blaming place x).run s =
      match x.run s with
      | (.ok a, t) => (.ok a, t)
      | (.error e, t) => (.error (place, e), t) := by
  change StateT.map (Except.mapError fun e => (place, e)) x.run s = _
  simp only [StateT.map, bind, pure]
  rcases x.run s with ⟨_ | _, _⟩ <;> rfl

/-- An effect only makes requests that are filed under the category of their change. -/
theorem EffectKind.check_hook? {kind : EffectKind} {owner : JokerKey} :
    ∀ request ∈ kind.hook? owner, request.check = .ok () := by
  intro request hrequest
  cases kind <;> cases hrequest <;> exact HookRequest.check_ofChange _ _

section Effects

variable (setting : Setting) (trigger : Trigger) {ledger : HookLedger} {s : Storage}

/-- With a kept ledger, an effect is compiled as if there were none, and a failure is blamed on
the effect. -/
theorem Effect.run_compileIn (hledger : ledger.Kept) (effect : Effect) (hs : s.Reachable) :
    (effect.compileIn setting ledger trigger).run s =
      match (effect.compile setting trigger).run s with
      | (.ok code, t) => (.ok code, t)
      | (.error e, t) => (.error (some effect.id, e), t) := by
  rw [compileIn, Resolver.run_bind, RuleCompiler.run_blaming]
  rcases hrun : (effect.compile setting trigger).run s with ⟨result, t⟩
  cases result with
  | error e => rfl
  | ok code =>
      obtain ⟨-, -, -, hmakes⟩ := makes_of_run_compile setting hs hrun
      cases hhook : code.body.hook with
      | none => simp only [hhook]; rfl
      | some request =>
          have hcheck : ledger.check request = .ok () := by
            rw [hledger.check_eq]
            exact EffectKind.check_hook? request (hmakes.hook ▸ hhook)
          simp only [hhook, hcheck]
          rfl

end Effects

namespace Rule

/-- The first effect whose kind has no shape for the class of the trigger. -/
def misfit? (rule : Rule) : Option Effect :=
  rule.effects.find? fun effect => !effect.kind.hasShape rule.trigger.triggerClass

/-- The turns of the effects of a rule, when its conditions have had theirs. -/
def effectTurns (setting : Setting) (s : Storage) (rule : Rule) :
    List (Turn Effect EffectCode) :=
  turns (Effect.compile setting rule.trigger) (lastStorage s (rule.conditionTurns setting s))
    rule.effects

end Rule

section Effects

variable (setting : Setting) (trigger : Trigger) {ledger : HookLedger} {s : Storage}

/-- When all effects fit, their turns make up the run. -/
theorem Effect.run_mapM_compileIn_of_fits (hledger : ledger.Kept) {effects : List Effect}
    (hfits : ∀ e ∈ effects, e.kind.hasShape trigger.triggerClass = true) (hs : s.Reachable)
    {ts : List (Turn Effect EffectCode)}
    (hts : ts = turns (Effect.compile setting trigger) s effects) :
    (effects.mapM (Effect.compileIn setting ledger trigger)).run s =
        (.ok (ts.map (·.code)), lastStorage s ts) ∧
      ts.map (·.item) = effects := by
  subst hts
  induction effects generalizing s with
  | nil => exact ⟨rfl, rfl⟩
  | cons effect effects ih =>
      rw [List.forall_mem_cons] at hfits
      obtain ⟨code, t, hrun, -, -, hmakes⟩ := run_compile_of_hasShape setting hfits.1 hs
      obtain ⟨hrest, hitems⟩ := ih hfits.2 (hmakes.serves.reachable hs)
      have hin : (effect.compileIn setting ledger trigger).run s = (.ok code, t) := by
        rw [run_compileIn setting trigger hledger effect hs, hrun]
      rw [turns_cons_of_ok hrun, List.map_cons, List.map_cons, hitems, List.mapM_cons,
        Resolver.run_bind_of_ok _ hin, Resolver.run_bind_of_ok _ hrest]
      exact ⟨rfl, rfl⟩

/-- The first effect that does not fit ends the run. -/
theorem Effect.run_mapM_compileIn_of_misfit (hledger : ledger.Kept) {effects : List Effect}
    {effect : Effect}
    (hmisfit : effects.find? (fun e => !e.kind.hasShape trigger.triggerClass) = some effect)
    (hs : s.Reachable) :
    ∃ t, (effects.mapM (Effect.compileIn setting ledger trigger)).run s =
      (.error (some effect.id, effect.missingShape trigger.triggerClass), t) := by
  induction effects generalizing s with
  | nil => cases hmisfit
  | cons first effects ih =>
      rw [List.mapM_cons]
      cases hshape : first.kind.hasShape trigger.triggerClass with
      | false =>
          rw [List.find?_cons_of_pos (by simp [hshape])] at hmisfit
          obtain rfl := Option.some.inj hmisfit
          have hin := run_compileIn setting trigger hledger first hs
          rw [run_compile_of_not_hasShape setting hshape] at hin
          exact ⟨s, by rw [Resolver.run_bind, hin]⟩
      | true =>
          rw [List.find?_cons_of_neg (by simp [hshape])] at hmisfit
          obtain ⟨code, t, hrun, -, -, hmakes⟩ := run_compile_of_hasShape setting hshape hs
          obtain ⟨u, hrest⟩ := ih hmisfit (hmakes.serves.reachable hs)
          have hin := run_compileIn setting trigger hledger first hs
          rw [hrun] at hin
          exact ⟨u, by rw [Resolver.run_bind_of_ok _ hin, Resolver.run_bind, hrest]⟩

end Effects

/-! ### Rules -/

namespace Rule

variable {setting : Setting} {ledger : HookLedger} {rule : Rule} {s : Storage}

/-- **What the compilation of a rule makes**, from the storage `s` to `t`. -/
structure Makes (setting : Setting) (rule : Rule) (s : Storage) (code : RuleCode) (t : Storage) :
    Prop where
  id : code.id = rule.id
  trigger : code.trigger = rule.trigger
  conditions : (rule.conditionTurns setting s).map (·.item) = rule.conditions
  /-- The code of the conditions joins what their turns make, and reads declared variables only. -/
  joins : JoinsTo ((rule.conditionTurns setting s).map (·.code)) code.condition
  condition : ∀ e ∈ code.condition, e.UsesAll (PathUse.KeepsTo t.names [])
  items : (rule.effectTurns setting s).map (·.item) = rule.effects
  effects : code.effects = (rule.effectTurns setting s).map (·.code)
  last : t =
    lastStorage (lastStorage s (rule.conditionTurns setting s)) (rule.effectTurns setting s)

/-- The conditions of a rule only extend the storage. -/
theorem conditions_spec (setting : Setting) (rule : Rule) (hs : s.Reachable) :
    (lastStorage s (rule.conditionTurns setting s)).Reachable ∧
      s.Extends (lastStorage s (rule.conditionTurns setting s)) :=
  lastStorage_spec (Condition.orderly_code setting rule.id rule.trigger) hs rule.conditions

namespace Makes

variable {code : RuleCode} {t : Storage}

/-- The effects of a rule only extend the storage. -/
theorem effects_extends (h : rule.Makes setting s code t) (hs : s.Reachable) :
    t.Reachable ∧ (lastStorage s (rule.conditionTurns setting s)).Extends t := by
  rw [h.last]
  exact lastStorage_spec (Effect.orderly_compile setting rule.trigger)
    (conditions_spec setting rule hs).1 rule.effects

theorem reachable (h : rule.Makes setting s code t) (hs : s.Reachable) :
    t.Reachable ∧ s.Extends t :=
  ⟨(h.effects_extends hs).1, (conditions_spec setting rule hs).2.trans (h.effects_extends hs).2⟩

/-- Every turn of a condition lies between the storages of the rule. -/
theorem condition_between (h : rule.Makes setting s code t) (hs : s.Reachable)
    {turn : Turn Condition Expr} (hturn : turn ∈ rule.conditionTurns setting s) :
    s.Extends turn.before ∧ turn.after.Extends t := by
  obtain ⟨-, hbefore, hafter⟩ :=
    mem_turns_between (Condition.orderly_code setting rule.id rule.trigger) hs hturn
  exact ⟨hbefore, hafter.trans (h.effects_extends hs).2⟩

/-- Every turn of an effect lies between the storages of the rule. -/
theorem effect_between (h : rule.Makes setting s code t) (hs : s.Reachable)
    {turn : Turn Effect EffectCode} (hturn : turn ∈ rule.effectTurns setting s) :
    s.Extends turn.before ∧ turn.after.Extends t := by
  obtain ⟨hconditions, hextends⟩ := conditions_spec setting rule hs
  obtain ⟨-, hbefore, hafter⟩ :=
    mem_turns_between (Effect.orderly_compile setting rule.trigger) hconditions hturn
  rw [h.last]
  exact ⟨hextends.trans hbefore, hafter⟩

/-- **A rule declares** the bounds of the counts of its conditions, and then the variables of its
effects. -/
theorem declared (h : rule.Makes setting s code t) (hs : s.Reachable) :
    t.declared = s.declared ++
      (((rule.conditionTurns setting s).flatMap fun c => c.item.countVars rule.trigger c.before) ++
        code.effects.flatMap (·.vars)) := by
  have hconditions : (lastStorage s (rule.conditionTurns setting s)).declared = s.declared ++
      (rule.conditionTurns setting s).flatMap fun c => c.item.countVars rule.trigger c.before :=
    declared_lastStorage fun turn hturn =>
      (Condition.turn_spec setting rule.id rule.trigger hs hturn).1.declared
  have heffects : t.declared = (lastStorage s (rule.conditionTurns setting s)).declared ++
      (rule.effectTurns setting s).flatMap (·.code.vars) := by
    rw [h.last]
    exact declared_lastStorage fun turn hturn =>
      (Effect.turn_spec setting (conditions_spec setting rule hs).1 hturn).2.2.serves.declared
  rw [heffects, hconditions, h.effects, List.flatMap_map, List.append_assoc]

end Makes

variable (setting)

/-- **A rule without a misfit is compiled**, from every reachable storage. -/
theorem run_compile_of_fits (hledger : ledger.Kept) (hfits : rule.misfit? = none)
    (hs : s.Reachable) :
    ∃ code t, (rule.compile setting ledger).run s = (.ok code, t) ∧
      rule.Makes setting s code t := by
  obtain ⟨condition, t, ht, hcondition, hjoins, huses⟩ := run_conditionCode? setting rule hs
  have hreachable : t.Reachable := ht ▸ (conditions_spec setting rule hs).1
  have hblamed : (RuleCompiler.blaming none (rule.conditionCode? setting)).run s =
      (.ok condition, t) := by
    rw [RuleCompiler.run_blaming, hcondition]
  have hshapes : ∀ e ∈ rule.effects, e.kind.hasShape rule.trigger.triggerClass = true := by
    simpa [misfit?] using hfits
  obtain ⟨heffects, hitems⟩ := Effect.run_mapM_compileIn_of_fits setting rule.trigger hledger
    hshapes hreachable rfl
  have hlast := (lastStorage_spec (Effect.orderly_compile setting rule.trigger) hreachable
    rule.effects).2.names_subset
  rw [ht] at heffects hitems hlast huses
  refine ⟨_, _, by rw [compile, Resolver.run_bind_of_ok _ hblamed, ht,
    Resolver.run_bind_of_ok _ heffects]; rfl, ?_⟩
  exact
    { id := rfl
      trigger := rfl
      conditions := map_item_conditionTurns setting rule hs
      joins := hjoins
      condition := fun e he => (huses e he).mono hlast (List.Subset.refl [])
      items := hitems
      effects := rfl
      last := rfl }

/-- **A rule with a misfit fails**, and the first misfit is blamed. -/
theorem run_compile_of_misfit (hledger : ledger.Kept) {effect : Effect}
    (hmisfit : rule.misfit? = some effect) (hs : s.Reachable) :
    ∃ t, (rule.compile setting ledger).run s =
      (.error (some effect.id, effect.missingShape rule.trigger.triggerClass), t) := by
  obtain ⟨condition, t, ht, hcondition, -⟩ := run_conditionCode? setting rule hs
  have hreachable : t.Reachable := ht ▸ (conditions_spec setting rule hs).1
  have hblamed : (RuleCompiler.blaming none (rule.conditionCode? setting)).run s =
      (.ok condition, t) := by
    rw [RuleCompiler.run_blaming, hcondition]
  obtain ⟨u, heffects⟩ := Effect.run_mapM_compileIn_of_misfit setting rule.trigger hledger hmisfit
    hreachable
  exact ⟨u, by rw [compile, Resolver.run_bind_of_ok _ hblamed, Resolver.run_bind, heffects]⟩

end Rule

end JokerScript
