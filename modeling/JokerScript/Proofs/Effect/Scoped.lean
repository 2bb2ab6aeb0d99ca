import JokerScript.Proofs.Effect.Written
import JokerScript.Proofs.Resolve.Scoped
import JokerScript.Rendered.Basic

/-!
# Scopes of Effects

The code of an effect goes to one of three places. A callback is a function of its own; a block
before the return table shares its local variables with the message of that table; the two
blocks for a held joker stand alone. In each of them the code of every effect is well scoped:
what a block declares is visible to what comes after it, and nothing else is used.

## Main definitions

* `EffectBody.IsScoped` — the code of an effect is well scoped where it is put.

## Main results

* `Effect.Writes.isScoped` — the code of every effect is well scoped.
-/

namespace JokerScript

open Lua

/-- The code of an effect is **well scoped** where it is put. -/
def EffectBody.IsScoped (body : EffectBody) : Prop :=
  match body.blocks with
  | .callback block =>
    (callbackFunction block).IsScoped runtimeGlobals ∧ body.message = none
  | .beforeReturn block => BlockScoped (block ++ [.ret body.message]) runtimeGlobals false
  | .whileHeld gain loss =>
    (BlockScoped gain runtimeGlobals false ∧ BlockScoped loss runtimeGlobals false) ∧
      body.message = none

section Pieces

variable {names after : List String} (hnames : runtimeGlobals ⊆ names)

/-! ### Messages and events -/

theorem isScoped_messageOr {usual : Expr} (h : usual.IsScoped names) (effect : Effect) :
    (effect.messageOr usual).IsScoped names := by
  rw [Effect.messageOr]
  split
  · exact Expr.isScoped_str _
  · exact h

include hnames

theorem isScoped_amountMessage {value : Expr} (h : value.IsScoped names) (lead trail : String) :
    (amountMessage lead value trail).IsScoped names := by
  have hword := inScope_vocabulary hnames
  refine Expr.isScoped_concat ?_
  simp +decide [hword, h]

/-- A status text is well scoped if its message is. -/
theorem blockScoped_statusText {message : Expr} {colour : Colour} {rest : Block} {inLoop : Bool} :
    BlockScoped (statusText message colour :: rest) names inLoop ↔
      message.IsScoped names ∧ BlockScoped rest names inLoop := by
  have hword := inScope_vocabulary hnames
  have hcolour : InScope names colour.path := by
    cases colour <;> exact hword _ (by decide) (by decide)
  simp +decide [statusText, Expr.or, hword, hcolour]

/-- An event is well scoped if its function is. -/
theorem blockScoped_scheduled {body rest : Block} {inLoop : Bool} :
    BlockScoped (scheduled body :: rest) names inLoop ↔
      BlockScoped body names false ∧ BlockScoped rest names inLoop := by
  have hword := inScope_vocabulary hnames
  simp +decide [scheduled, hword]

/-! ### Changes of the game -/

theorem HandChange.leadsOn_change {v : Expr} (hv : v.IsScoped names) (duration : Duration)
    (operation : HandOperation) : LeadsOn (change duration operation v) names names := by
  have hword := inScope_vocabulary hnames
  intro rest inLoop hrest
  cases duration <;> cases operation <;>
    simp +decide [change, permanentChange, roundChange, hword, hv, hrest, Expr.plus, Expr.minus,
      Expr.opposite, roundHands, handsLeft]

theorem HandChange.isScoped_message {v : Expr} (hv : v.IsScoped names)
    (operation : HandOperation) : (HandChange.message operation v).IsScoped names := by
  cases operation <;> exact isScoped_amountMessage hnames hv _ _

theorem BlindChange.leadsOn_change {v : Expr} (hv : v.IsScoped names)
    (operation : BlindOperation) : LeadsOn (change operation v) names names := by
  have hword := inScope_vocabulary hnames
  intro rest inLoop hrest
  cases operation <;>
    simp +decide [change, newChips, hword, hv, hrest, Expr.plus, Expr.minus, Expr.times,
      Expr.dividedBy, blindChips]

omit hnames in
/-- The statements that decorate the new card are put where it is a local variable. -/
theorem JokerCreation.leadsOn_decorations (names : List String) (params : JokerCreation) :
    LeadsOn params.decorations ("joker_card" :: names) ("joker_card" :: names) := by
  have hedition : LeadsOn (decoration "set_edition" params.edition) ("joker_card" :: names)
      ("joker_card" :: names) := by
    intro rest inLoop hrest
    cases params.edition <;> simp +decide [decoration, newCard, hrest]
  have hsticker : LeadsOn (decoration "add_sticker" params.sticker) ("joker_card" :: names)
      ("joker_card" :: names) := by
    intro rest inLoop hrest
    cases params.sticker <;> simp +decide [decoration, newCard, hrest]
  exact hedition.append hsticker

theorem JokerCreation.blockScoped_creation (naming : Naming) (params : JokerCreation) :
    BlockScoped (params.creation naming) names false := by
  have hword := inScope_vocabulary hnames
  have hspec : (cardSpec naming params.selection).IsScoped names := by
    cases params.selection <;> simp +decide [cardSpec]
  have hdecorate := (params.leadsOn_decorations names).isScoped false
  rw [creation]
  split <;> split <;> simp +decide [hword, hspec, hdecorate, newCard, jokerBuffer]

/-- The creation of a joker declares the variable that tells whether there is one. -/
theorem JokerCreation.leadsOn_attempt (naming : Naming) (params : JokerCreation) :
    LeadsOn (params.attempt naming) names ("created_joker" :: names) := by
  have hword := inScope_vocabulary hnames
  have hmore : runtimeGlobals ⊆ "created_joker" :: names := List.subset_cons_of_subset _ hnames
  have hcreation := blockScoped_creation hmore naming params
  intro rest inLoop hrest
  rw [attempt]
  split
  · simp +decide [blockScoped_scheduled hmore, hcreation, hrest, created]
  · simp +decide [blockScoped_scheduled hmore, hcreation, hword, hrest, hasRoom, Expr.lt,
      Expr.plus, Expr.length, created, jokerBuffer]

theorem ConsumableRemoval.leadsOn_block (naming : Naming) (effect : Effect)
    (params : ConsumableRemoval) :
    LeadsOn (params.block naming effect) names ("target_cards" :: names) := by
  have hword := inScope_vocabulary hnames
  have hcollect : BlockScoped (collect params.target)
      ("_" :: "consumable" :: "target_cards" :: names) true := by
    rw [collect]
    rcases params.target with _ | ⟨set, _ | card⟩ <;>
      simp +decide [filter?, hword, Expr.equals, Expr.and, targets]
  have hdestroyed : runtimeGlobals ⊆ "card_to_destroy" :: "target_cards" :: names :=
    List.subset_cons_of_subset _ (List.subset_cons_of_subset _ hnames)
  have hmessage : ∀ {names : List String},
      (effect.messageOr (.str "Destroyed Consumable!")).IsScoped names :=
    isScoped_messageOr (Expr.isScoped_str _) effect
  intro rest inLoop hrest
  simp +decide [block, destroy, blockScoped_scheduled hdestroyed,
    blockScoped_statusText hdestroyed, hword, hcollect, hmessage, hrest, targets, chosen, Expr.gt,
    Expr.length]

theorem leadsOn_refreshCosts : LeadsOn refreshCosts names names := by
  have hword := inScope_vocabulary hnames
  intro rest inLoop hrest
  simp +decide [refreshCosts, blockScoped_scheduled hnames, hword, hrest]

theorem RerollGrant.blockScoped_change (amount : Number) :
    BlockScoped (change amount) names false := by
  have hword := inScope_vocabulary hnames
  simp +decide [change, hword]

/-! ### Quantities -/

omit hnames in
/-- The statements of a quantity lead to where its value is well scoped. -/
theorem BoundQuantity.leadsOn_setup {slot : String} {r : Resolved}
    (hslot : isIdentifier (slot ++ "_value") = true) (hr : r.expr.IsScoped names) :
    ∃ after, names ⊆ after ∧ LeadsOn (ofResolved slot r).setup names after ∧
      (ofResolved slot r).value.IsScoped after := by
  rw [ofResolved]
  split
  · exact ⟨names, List.Subset.refl _, LeadsOn.nil names, hr⟩
  · refine ⟨(slot ++ "_value") :: names, List.subset_cons_self _ _, fun rest inLoop hrest => ?_, ?_⟩
    · simp [hslot, hr, hrest]
    · simp [beginsAt_self hslot]

theorem Effect.isScoped_settled {request : SlotRequest} (hbase : request.base ∈ slotBases)
    (setting : Setting) (effect : Effect) (s : Storage) (q : Quantity) :
    (effect.settled setting request s q).expr.IsScoped names := by
  have hslot : ∀ suffix ∈ valueSuffixes, isIdentifier (request.slot s ++ suffix) = true := by
    intro suffix hsuffix
    refine isIdentifier_slot hbase s request.suffixes suffix ?_
    revert suffix
    decide
  refine JokerScript.isScoped_settled _ _ _ hnames (fun _ => ?_) (hslot "_min" (by decide))
    (hslot "_max" (by decide))
  have hname := hslot "" (by decide)
  rwa [String.append_empty] at hname

/-- The same for the quantity of an effect. -/
theorem Effect.leadsOn_bound {request : SlotRequest} (hbase : request.base ∈ slotBases)
    (setting : Setting) (effect : Effect) (s : Storage) (q : Quantity) :
    ∃ after, runtimeGlobals ⊆ after ∧
      LeadsOn (effect.bound setting request s q).setup names after ∧
      (effect.bound setting request s q).value.IsScoped after := by
  obtain ⟨after, hafter, hsetup, hvalue⟩ := BoundQuantity.leadsOn_setup
    (isIdentifier_slot hbase s request.suffixes "_value" (by decide))
    (Effect.isScoped_settled hnames hbase setting effect s q)
  exact ⟨after, List.Subset.trans hnames hafter, hsetup, hvalue⟩

end Pieces

/-! ### Effects -/

/-- A change with a message, for either class of triggers. -/
theorem EffectBody.isScoped_triggered (triggerClass : TriggerClass) {after : List String}
    {setup change : Block} {message : Expr} (colour : Colour) (hafter : runtimeGlobals ⊆ after)
    (hsetup : LeadsOn setup runtimeGlobals after) (hmessage : message.IsScoped after)
    (hchange : LeadsOn change after after) :
    (triggered triggerClass setup message colour change).IsScoped := by
  have hstatus : LeadsOn [statusText message colour] after after := fun rest inLoop hrest =>
    (blockScoped_statusText hafter).mpr ⟨hmessage, hrest⟩
  have hcallback : (callbackFunction (setup ++ [statusText message colour] ++ change)).IsScoped
      runtimeGlobals := by
    rw [callbackFunction, Expr.isScoped_thunk]
    exact ((hsetup.append hstatus).append hchange) _ false (by simp)
  cases triggerClass with
  | scoring =>
      exact (hsetup.append hchange) [.ret (some message)] false
        ((blockScoped_returning message).mpr hmessage)
  | immediate => exact ⟨hcallback, rfl⟩
  | passive => exact ⟨hcallback, rfl⟩

/-- The blocks of a held change of the number of hands. -/
theorem HeldChange.isScoped {c : HeldChange}
    (hslot : ∀ suffix ∈ "_value" :: HandChange.passiveSuffixes,
      isIdentifier (c.slot ++ suffix) = true)
    (hr : c.resolved.expr.IsScoped runtimeGlobals) :
    EffectBody.IsScoped { blocks := c.blocks } := by
  have hnames : runtimeGlobals ⊆ runtimeGlobals := List.Subset.refl _
  have hname : c.quantity.slot = c.slot := BoundQuantity.slot_ofResolved c.slot c.resolved
  obtain ⟨after, hafter, hsetup, hvalue⟩ : ∃ after, runtimeGlobals ⊆ after ∧
      LeadsOn c.quantity.setup runtimeGlobals after ∧ c.quantity.value.IsScoped after :=
    BoundQuantity.leadsOn_setup (hslot "_value" (by decide)) hr
  have happlied : ∀ {names}, runtimeGlobals ⊆ names → InScope names
      ("card.ability.extra." ++ HandChange.appliedName c.quantity.slot) := fun h =>
    inScope_extra h (hname ▸ hslot "_applied" (by decide))
  have hsnapshot : ∀ {names}, runtimeGlobals ⊆ names → InScope names
      ("card.ability.extra." ++ HandChange.snapshotName c.quantity.slot) := fun h =>
    inScope_extra h (hname ▸ hslot "_original" (by decide))
  have hword := inScope_vocabulary hafter
  rw [HeldChange.blocks]
  cases c.operation with
  | add =>
      refine ⟨⟨hsetup _ false ?_, ?_⟩, rfl⟩
      · simp +decide [happlied hafter, hword, hvalue, Expr.plus, HandChange.roundHands]
      · simp +decide [happlied hnames, Expr.minus, Expr.or, HandChange.roundHands]
  | subtract =>
      have hbefore := hvalue.mono (List.subset_cons_self "hands_before" after)
      refine ⟨⟨hsetup _ false ?_, ?_⟩, rfl⟩
      · simp +decide [happlied hafter, hword, hbefore, Expr.minus, HandChange.roundHands]
      · simp +decide [happlied hnames, Expr.plus, Expr.or, HandChange.roundHands]
  | set =>
      refine ⟨⟨hsetup _ false ?_, ?_⟩, rfl⟩
      · simp +decide [hsnapshot hafter, hword, hvalue, HandChange.roundHands]
      · simp +decide [hsnapshot hnames, HandChange.roundHands]

/-- **The code of every effect is well scoped.** -/
theorem Effect.Writes.isScoped {setting : Setting} {trigger : Trigger} {effect : Effect}
    {s : Storage} {body : EffectBody} (h : effect.Writes setting trigger s body) :
    body.IsScoped := by
  have hnames : runtimeGlobals ⊆ runtimeGlobals := List.Subset.refl _
  have hcreated : runtimeGlobals ⊆ "created_joker" :: runtimeGlobals := by simp
  have hplus : JokerCreation.plusJoker.IsScoped ("created_joker" :: runtimeGlobals) := by
    simp +decide [JokerCreation.plusJoker]
  have hflag : InScope ("created_joker" :: runtimeGlobals) JokerCreation.created := by
    simp +decide
  cases h with
  | creation =>
      have husual : (((Expr.path JokerCreation.created).and JokerCreation.plusJoker).or
          .nil).IsScoped ("created_joker" :: runtimeGlobals) := ⟨⟨hflag, hplus⟩, trivial⟩
      exact JokerCreation.leadsOn_attempt hnames _ _ _ false
        ((blockScoped_returning _).mpr (isScoped_messageOr husual effect))
  | creationAtOnce =>
      refine ⟨(Expr.isScoped_thunk _).mpr ?_, rfl⟩
      rw [List.append_assoc]
      refine JokerCreation.leadsOn_attempt hnames _ _ _ false ?_
      simp [blockScoped_statusText hcreated, hflag, isScoped_messageOr hplus]
  | removal =>
      exact ConsumableRemoval.leadsOn_block hnames _ _ _ _ false blockScoped_ret_none
  | removalAtOnce =>
      refine ⟨(Expr.isScoped_thunk _).mpr ?_, rfl⟩
      exact ConsumableRemoval.leadsOn_block hnames _ _ _ _ false (by simp)
  | handChange hkind hclass hq =>
      have hbase : Effect.handsRequest.base ∈ slotBases := by decide
      obtain ⟨after, hafter, hsetup, hvalue⟩ :=
        Effect.leadsOn_bound hnames hbase setting effect s _
      rw [← hq] at hsetup hvalue
      exact EffectBody.isScoped_triggered _ _ hafter hsetup
        (isScoped_messageOr (HandChange.isScoped_message hafter hvalue _) effect)
        (HandChange.leadsOn_change hafter hvalue _ _)
  | blindChange hkind hclass hq =>
      have hbase : Effect.blindRequest.base ∈ slotBases := by decide
      obtain ⟨after, hafter, hsetup, hvalue⟩ :=
        Effect.leadsOn_bound hnames hbase setting effect s _
      rw [← hq] at hsetup hvalue
      exact EffectBody.isScoped_triggered _ _ hafter hsetup
        (isScoped_messageOr (isScoped_amountMessage hafter hvalue _ _) effect)
        (BlindChange.leadsOn_change hafter hvalue _)
  | heldHandChange hkind hclass hop hslot hr =>
      have hbase : "hand_change" ∈ slotBases := by decide
      refine HeldChange.isScoped (fun suffix hsuffix => ?_) ?_
      · rw [hslot]
        refine isIdentifier_slot hbase s _ suffix ?_
        revert suffix
        decide
      · rw [hr]
        exact Effect.isScoped_settled hnames (by decide) setting effect s _
  | discount =>
      have hrefresh := (leadsOn_refreshCosts hnames).isScoped false
      exact ⟨⟨hrefresh, hrefresh⟩, rfl⟩
  | rerollGrant =>
      have hchange := RerollGrant.blockScoped_change hnames
      exact ⟨⟨hchange _, hchange _⟩, rfl⟩
  | suitPair => exact ⟨⟨trivial, trivial⟩, rfl⟩

end JokerScript
