import JokerScript.Proofs.Compile.Outcome
import JokerScript.Proofs.Condition.Scoped
import JokerScript.Proofs.Effect.Scoped
import JokerScript.Proofs.Hook.Scoped

/-!
# Scopes of Mods

All code of a mod is well scoped when the suit variables of its jokers are called as variables
are. The names are not checked, though, and a condition puts the name of a suit variable into a
path as it is. So the **paths** of a rule are dotted exactly if the paths of the suit variables
are that its conditions read: no other text of an author gets into code, except between quotes
or as an identifier.

## Main definitions

* `RuleCode.uses` — the paths in the code of a rule.
* `RuleCode.IsScoped` — the code of a rule is well scoped.
* `Rule.HasDottedSuits` — the paths of the suit variables that a rule reads are dotted.

## Main results

* `Rule.Makes.isScoped_iff`, `Rule.Makes.isDotted_uses_iff` — the code of a rule.
* `compile_isScoped` — the code of a mod is well scoped.
* `compile_isDotted_iff` — the paths in the code of a mod.
-/

namespace JokerScript

open Lua

/-! ### Rules -/

/-- The paths in the code of an effect. -/
def EffectBody.uses (body : EffectBody) : List PathUse :=
  body.blocks.toList.flatMap blockUses ++ body.message.toList.flatMap Expr.uses

namespace RuleCode

/-- The paths in the code of a rule: in its condition, its blocks and its messages. -/
def uses (code : RuleCode) : List PathUse :=
  code.condition.toList.flatMap Expr.uses ++ code.effects.flatMap fun effect => effect.body.uses

/-- The code of a rule is **well scoped**: its condition is, and so is the code of each effect
where it is put. -/
structure IsScoped (code : RuleCode) : Prop where
  condition : ∀ e ∈ code.condition, e.IsScoped runtimeGlobals
  effects : ∀ effect ∈ code.effects, effect.body.IsScoped

end RuleCode

theorem Lua.BlockScoped.isDotted_uses_append {first second : Block} {names : List String}
    {inLoop : Bool} (h : BlockScoped (first ++ second) names inLoop) :
    (∀ u ∈ blockUses first, isDotted u.path = true) ∧
      ∀ u ∈ blockUses second, isDotted u.path = true := by
  have hall := h.isDotted_uses
  rwa [blockUses_append, List.forall_mem_append] at hall

/-- The paths in the code of an effect are dotted. -/
theorem EffectBody.IsScoped.isDotted_uses {body : EffectBody} (h : body.IsScoped) :
    ∀ u ∈ body.uses, isDotted u.path = true := by
  obtain ⟨blocks, message, colour, hook⟩ := body
  cases blocks with
  | callback block =>
      obtain ⟨hblock, rfl⟩ : (callbackFunction block).IsScoped runtimeGlobals ∧ message = none := h
      rw [callbackFunction, Expr.isScoped_thunk] at hblock
      simpa [uses, EffectBlocks.toList] using hblock.isDotted_uses_append.1
  | beforeReturn block =>
      have hwhole : BlockScoped (block ++ [.ret message]) runtimeGlobals false := h
      obtain ⟨hblock, hmessage⟩ := hwhole.isDotted_uses_append
      cases message with
      | none => simpa [uses, EffectBlocks.toList] using hblock
      | some e =>
          have he : ∀ u ∈ e.uses, isDotted u.path = true := fun u hu =>
            hmessage u (List.mem_append_left [] hu)
          simpa [uses, EffectBlocks.toList, or_imp, forall_and] using ⟨hblock, he⟩
  | whileHeld gain loss =>
      obtain ⟨⟨hgain, hloss⟩, rfl⟩ : (BlockScoped gain runtimeGlobals false ∧
        BlockScoped loss runtimeGlobals false) ∧ message = none := h
      simpa [uses, EffectBlocks.toList, or_imp, forall_and] using
        ⟨hgain.isDotted_uses, hloss.isDotted_uses⟩

/-- The paths in the code of a rule are dotted if the code is well scoped. -/
theorem RuleCode.IsScoped.isDotted_uses {code : RuleCode} (h : code.IsScoped) :
    ∀ u ∈ code.uses, isDotted u.path = true := by
  intro u hu
  rcases List.mem_append.mp hu with hu | hu
  · obtain ⟨e, he, hu⟩ := List.mem_flatMap.mp hu
    exact (h.condition e (Option.mem_toList.mp he)).isDotted_uses u hu
  · obtain ⟨effect, heffect, hu⟩ := List.mem_flatMap.mp hu
    exact (h.effects effect heffect).isDotted_uses u hu

/-- The paths of the suit variables that the conditions of the rule read are dotted. -/
def Rule.HasDottedSuits (joker : Joker) (rule : Rule) : Prop :=
  ∀ name ∈ rule.suitVariables joker, isDotted (suitPath name) = true

namespace Rule.Makes

variable {setting : Setting} {rule : Rule} {s t : Storage} {code : RuleCode}

theorem isScoped_effects (h : rule.Makes setting s code t) (hs : s.Reachable) :
    ∀ effect ∈ code.effects, effect.body.IsScoped := by
  intro effect heffect
  rw [h.effects] at heffect
  obtain ⟨turn, hturn, rfl⟩ := List.mem_map.mp heffect
  exact (Effect.writes_of_mem_turns (Rule.conditions_spec setting rule hs).1 hturn).isScoped

/-- The conditions of a rule are well scoped if the paths of their suit variables are dotted. -/
theorem isScoped_condition (h : rule.Makes setting s code t) (hs : s.Reachable)
    (hsuits : rule.HasDottedSuits setting.joker) :
    ∀ e ∈ code.condition, e.IsScoped runtimeGlobals := by
  refine h.joins.isScoped.mpr fun e he => ?_
  obtain ⟨turn, hturn, rfl⟩ := List.mem_map.mp he
  obtain ⟨-, hcode, -⟩ := Condition.turn_spec setting rule.id rule.trigger hs hturn
  rw [hcode]
  refine turn.item.isScoped_written setting rule.id rule.trigger turn.before fun name hname => ?_
  exact hsuits name (List.mem_filterMap.mpr ⟨turn.item, (run_of_mem_turns hturn).1, hname⟩)

/-- If the paths of the conditions have a property, those of their suit variables have it. -/
theorem suitPath_of_usesAll {P : PathUse → Prop} (h : rule.Makes setting s code t)
    (hs : s.Reachable) (huses : ∀ e ∈ code.condition, e.UsesAll P) :
    ∀ name ∈ rule.suitVariables setting.joker, P ⟨suitPath name, false⟩ := by
  intro name hname
  obtain ⟨c, hc, hvariable⟩ := List.mem_filterMap.mp hname
  rw [← h.conditions] at hc
  obtain ⟨turn, hturn, rfl⟩ := List.mem_map.mp hc
  obtain ⟨-, hcode, -⟩ := Condition.turn_spec setting rule.id rule.trigger hs hturn
  have hpart := h.joins.usesAll.mp huses turn.code (List.mem_map_of_mem hturn)
  rw [hcode] at hpart
  exact turn.item.suitPath_of_usesAll_written setting rule.id rule.trigger turn.before hvariable
    hpart

/-- **The code of a rule is well scoped** exactly if the paths of its suit variables are dotted. -/
theorem isScoped_iff (h : rule.Makes setting s code t) (hs : s.Reachable) :
    code.IsScoped ↔ rule.HasDottedSuits setting.joker := by
  constructor
  · intro hscoped
    exact h.suitPath_of_usesAll (P := fun u => isDotted u.path = true) hs fun e he =>
      (hscoped.condition e he).isDotted_uses
  · intro hsuits
    exact ⟨h.isScoped_condition hs hsuits, h.isScoped_effects hs⟩

/-- **The paths of a rule are dotted** exactly if the paths of its suit variables are. -/
theorem isDotted_uses_iff (h : rule.Makes setting s code t) (hs : s.Reachable) :
    (∀ u ∈ code.uses, isDotted u.path = true) ↔ rule.HasDottedSuits setting.joker := by
  constructor
  · intro huses
    refine h.suitPath_of_usesAll (P := fun u => isDotted u.path = true) hs fun e he u hu => ?_
    refine huses u (List.mem_append_left _ (List.mem_flatMap.mpr ⟨e, ?_, hu⟩))
    exact Option.mem_toList.mpr he
  · intro hsuits
    exact ((h.isScoped_iff hs).mpr hsuits).isDotted_uses

end Rule.Makes

/-! ### Mods -/

/-- What holds of the second item of each pair holds of the whole second list. -/
theorem forall_right_of_forall₂ {α β : Type} {R : α → β → Prop} {Q : β → Prop} {as : List α}
    {bs : List β} (h : List.Forall₂ R as bs) (hQ : ∀ a b, R a b → Q b) : ∀ b ∈ bs, Q b := by
  induction h with
  | nil => exact List.forall_mem_nil Q
  | cons hhead _ ih => exact List.forall_mem_cons.mpr ⟨hQ _ _ hhead, ih⟩

section Mods

variable {naming : Naming} {jokers : List Joker} {code : ModCode}

/-- A suit variable that a condition reads is one of the author. -/
theorem Rule.mem_vars_of_suitVariables {joker : Joker} {rule : Rule} {name : String}
    (h : name ∈ rule.suitVariables joker) : ∃ v ∈ joker.vars, v.kind = .suit ∧ v.name = name := by
  obtain ⟨c, -, hc⟩ := List.mem_filterMap.mp h
  exact SuitChoice.mem_vars_of_suitVariable? hc

/-- An effect asks for a change under the category of the change. -/
theorem Joker.category_of_mem_requests {joker : Joker} {category : HookCategory}
    {request : HookRequest} (h : request ∈ joker.requests category) :
    request.change.category = category := by
  obtain ⟨effect, heffect, hrequest⟩ := List.mem_filterMap.mp h
  have hspec := effect.kind.hook?_spec joker.key category
  rw [if_pos (by simpa using (List.mem_filter.mp heffect).2)] at hspec
  obtain ⟨other, hother, -, rfl⟩ := hspec
  obtain rfl := Option.some.inj (hrequest.symm.trans hother)
  cases hkind : effect.kind <;> rw [hkind] at hrequest <;> cases hrequest <;> rfl

/-- The replaced functions of a mod are well scoped. -/
theorem blockScoped_hooks (h : compile naming jokers = .ok code) :
    ∀ patch ∈ code.hooks, BlockScoped patch.body runtimeGlobals false := by
  intro patch hpatch
  obtain ⟨-, hjokers⟩ := compilesTo_of_compileWith h
  rw [List.forall₂_map_left_iff] at hjokers
  rw [hooks_of_compileWith h] at hpatch
  obtain ⟨category, -, rfl⟩ := mem_mergedPatches.mp hpatch
  refine Patch.blockScoped_merging naming category fun request hrequest => ?_
  rw [requestsOf_of_compilesTo hjokers] at hrequest
  obtain ⟨joker, -, hrequest⟩ := List.mem_flatMap.mp hrequest
  exact Joker.category_of_mem_requests hrequest

/-- The rules that fit, with their codes in order. -/
theorem forall₂_fitting_codeFrom {P : Joker → Rule → RuleCode → Prop}
    (h : compile naming jokers = .ok code)
    (hP : ∀ joker ∈ jokers, ∀ rule s ruleCode t, s.Reachable →
      rule.Makes ⟨joker, naming⟩ s ruleCode t → P joker rule ruleCode) :
    List.Forall₂ (fun joker jokerCode => List.Forall₂ (P joker) joker.fitting.rules jokerCode.rules)
      jokers code.jokers := by
  obtain ⟨-, hjokers⟩ := compilesTo_of_compileWith h
  rw [List.forall₂_map_left_iff] at hjokers
  have hself : ∀ joker ∈ jokers, joker ∈ jokers := fun _ hjoker => hjoker
  refine ((List.forall₂_and_left _ _).mpr ⟨hself, hjokers⟩).imp ?_
  rintro joker jokerCode ⟨hjoker, start, hstart, rfl⟩
  have hreachable := Storage.Reachable.ofJoker hstart
  rw [Joker.fitting, ← joker.map_item_ruleTurns naming hreachable, Joker.codeFrom,
    List.forall₂_map_left_iff, List.forall₂_map_right_iff]
  refine List.forall₂_same.mpr fun turn hturn => ?_
  obtain ⟨hbefore, hmakes⟩ := Joker.ruleTurn_spec hreachable hturn
  exact hP joker hjoker turn.item turn.before turn.code turn.after hbefore hmakes

/-- **All code of a mod is well scoped** if the names of its suit variables have the shape of
identifiers: the code of every rule that was compiled, and every replaced function. -/
theorem compile_isScoped (h : compile naming jokers = .ok code)
    (hsuits : ∀ joker ∈ jokers, ∀ v ∈ joker.vars, v.kind = .suit →
      isNameShape v.name.toList = true) :
    (∀ joker ∈ code.jokers, ∀ rule ∈ joker.rules, rule.IsScoped) ∧
      ∀ patch ∈ code.hooks, BlockScoped patch.body runtimeGlobals false := by
  have hdotted : ∀ joker ∈ jokers, ∀ rule : Rule, rule.HasDottedSuits joker := by
    intro joker hjoker rule name hname
    obtain ⟨v, hv, hkind, rfl⟩ := Rule.mem_vars_of_suitVariables hname
    exact isDotted_suitPath (hsuits joker hjoker v hv hkind)
  have hrules := forall₂_fitting_codeFrom (P := fun _ _ ruleCode => ruleCode.IsScoped) h
    fun joker hjoker rule s ruleCode t hs hmakes =>
      (hmakes.isScoped_iff hs).mpr (hdotted joker hjoker rule)
  exact ⟨forall_right_of_forall₂ hrules fun _ _ hjoker =>
    forall_right_of_forall₂ hjoker fun _ _ hrule => hrule, blockScoped_hooks h⟩

/-- A joker that reads the card of a suit variable and the card of a suit, draws a number and
creates jokers, and gives a discount while it is held. -/
def seeker (name : String) : Joker where
  id := ⟨"joker"⟩
  key := ⟨"seeker"⟩
  vars := [.ofSuit name]
  rules :=
    [{ id := ⟨"seek"⟩
       trigger := .cardScored
       groups :=
        [{ connective := .or
           conditions :=
            [{ subject := .played, test := { choice := .named name } },
              { subject := .played, test := { choice := .named "Hearts" } }] }]
       effects :=
        [{ id := ⟨"more"⟩, kind := .editHand { value := .text "RANGE:1|2" } },
          { id := ⟨"create"⟩, kind := .createJoker {} }] },
      { id := ⟨"save"⟩
        trigger := .passive
        effects := [{ id := ⟨"cheap"⟩, kind := .discountItems {} }] }]

/-- A reserved word has the shape of an identifier, and does no harm in the path of a card. -/
theorem compile_isScoped_seeker : ∃ code, compile {} [seeker "end"] = .ok code ∧
    code.jokers.map (·.rules.length) = [2] ∧ code.hooks.length = 1 ∧
    (∀ joker ∈ code.jokers, ∀ rule ∈ joker.rules, rule.IsScoped) ∧
    ∀ patch ∈ code.hooks, BlockScoped patch.body runtimeGlobals false := by
  have hcounts : ((compile {} [seeker "end"]).toOption.map fun code =>
      (code.jokers.map (·.rules.length), code.hooks.length)) = some ([2], 1) := by
    decide +kernel
  have hnodup : ∀ joker ∈ [seeker "end"], joker.numberNames.Nodup := by decide
  obtain ⟨code, hcode⟩ := compile_of_nodup {} hnodup
  rw [hcode] at hcounts
  obtain ⟨hrules, hhooks⟩ := Prod.mk.inj (Option.some.inj hcounts)
  exact ⟨code, hcode, hrules, hhooks, compile_isScoped hcode (by decide)⟩

/-- **The paths in the code of a mod** are dotted exactly where the paths of the suit variables
are that conditions read, and the code is well scoped at the same places. Of what an author
writes, only the name of a suit variable gets into code without being checked. -/
theorem compile_isDotted_iff (h : compile naming jokers = .ok code) :
    List.Forall₂ (fun joker jokerCode => List.Forall₂ (fun rule ruleCode =>
        ((∀ u ∈ ruleCode.uses, isDotted u.path = true) ↔ rule.HasDottedSuits joker) ∧
          (ruleCode.IsScoped ↔ rule.HasDottedSuits joker))
      joker.fitting.rules jokerCode.rules) jokers code.jokers :=
  forall₂_fitting_codeFrom h fun _ _ _ _ _ _ hs hmakes =>
    ⟨hmakes.isDotted_uses_iff hs, hmakes.isScoped_iff hs⟩

/-- Of two jokers, one calls its suit variable by a single word. The code of its rules is well
scoped; the first rule of the other joker has a path that is not dotted. -/
theorem compile_isDotted_iff_seekers : ∃ code one other,
    compile {} [seeker "lucky", seeker "my suit"] = .ok code ∧ code.jokers = [one, other] ∧
    (∀ rule ∈ one.rules, rule.IsScoped) ∧
    ∃ rule ∈ other.rules, ¬∀ u ∈ rule.uses, isDotted u.path = true := by
  have hlucky : ∀ rule ∈ (seeker "lucky").fitting.rules,
      rule.HasDottedSuits (seeker "lucky") := by
    unfold Rule.HasDottedSuits
    decide +kernel
  have hnodup : ∀ joker ∈ [seeker "lucky", seeker "my suit"], joker.numberNames.Nodup := by
    decide
  obtain ⟨code, hcode⟩ := compile_of_nodup {} hnodup
  obtain ⟨one, rest, hone, hrest, hjokers⟩ :=
    List.forall₂_cons_left_iff.mp (compile_isDotted_iff hcode)
  obtain ⟨other, rest, hother, hnil, rfl⟩ := List.forall₂_cons_left_iff.mp hrest
  obtain rfl := List.forall₂_nil_left_iff.mp hnil
  obtain ⟨rule, rules, hrule, -, hrules⟩ := List.forall₂_cons_left_iff.mp hother
  refine ⟨code, one, other, hcode, hjokers, ?_, rule, by simp [hrules], fun huses => ?_⟩
  · have hboth := (List.forall₂_and_left _ _).mpr ⟨hlucky, hone⟩
    exact forall_right_of_forall₂ hboth fun _ _ hpair => hpair.2.2.mpr hpair.1
  · have hpath := hrule.1.mp huses "my suit" (by decide +kernel)
    exact absurd hpath (by decide +kernel)

/-- A name of two words becomes code: the path of its card is not dotted. -/
theorem exists_not_isDotted_seeker : ∃ code, compile {} [seeker "my suit"] = .ok code ∧
    ∃ joker ∈ code.jokers, ∃ rule ∈ joker.rules, ∃ u ∈ rule.uses,
      u.path = "G.GAME.current_round.my suit_card.suit" ∧ isDotted u.path = false := by
  have hpaths : ((compile {} [seeker "my suit"]).toOption.map fun code =>
      code.jokers.flatMap fun joker => joker.rules.flatMap fun rule =>
        (rule.uses.map (·.path)).filter fun p => !isDotted p) =
      some ["G.GAME.current_round.my suit_card.suit"] := by
    decide +kernel
  have hnodup : ∀ joker ∈ [seeker "my suit"], joker.numberNames.Nodup := by decide
  obtain ⟨code, hcode⟩ := compile_of_nodup {} hnodup
  rw [hcode] at hpaths
  have hmem := (Option.some.inj hpaths).symm ▸ List.mem_singleton_self _
  obtain ⟨joker, hjoker, hmem⟩ := List.mem_flatMap.mp hmem
  obtain ⟨rule, hrule, hmem⟩ := List.mem_flatMap.mp hmem
  obtain ⟨hmem, hdotted⟩ := List.mem_filter.mp hmem
  obtain ⟨u, hu, hpath⟩ := List.mem_map.mp hmem
  refine ⟨code, hcode, joker, hjoker, rule, hrule, u, hu, hpath, ?_⟩
  rw [hpath]
  simpa using hdotted

end Mods

end JokerScript
