import JokerScript.Proofs.Compile.Turns
import JokerScript.Proofs.Held.Slots
import JokerScript.Proofs.Resolve.Vocabulary

/-!
# Outcomes of Effects

Whether an effect can be compiled depends on its kind and on the class of its trigger alone:
some kinds have code for held jokers only, others for all but these. Where a kind has the
**shape** of a class, its compilation succeeds from every reachable storage.

The code reads declared variables. It assigns none of them but a **record** of its own slot,
and only a held change of the number of hands has a record.

## Main definitions

* `EffectKind.hasShape` — has a kind code for a class of triggers?
* `Effect.slotRequest?`, `Effect.record?` — the storage of an effect.
* `Effect.Makes` — what the compilation of an effect makes.

## Main results

* `Effect.run_compile_of_hasShape`, `Effect.run_compile_of_not_hasShape` — the outcomes.
-/

namespace JokerScript

open Lua

/-! ### Shapes -/

/-- Has an effect of the kind code for triggers of a class? -/
def EffectKind.hasShape (triggerClass : TriggerClass) : EffectKind → Bool
  | createJoker _ | destroyConsumable _ | modifyBlind _ => triggerClass != .passive
  | editHand _ => true
  | discountItems _ | freeRerolls _ | combineSuits _ => triggerClass == .passive

/-- The change to a function of the game that an effect of the kind asks for. -/
def EffectKind.hook? (owner : JokerKey) : EffectKind → Option HookRequest
  | discountItems params => some (.ofChange owner (.discount params))
  | combineSuits params => some (.ofChange owner (.suitPair params))
  | createJoker _ | destroyConsumable _ | editHand _ | modifyBlind _ | freeRerolls _ => none

/-- The variable of a slot that records what a held joker did to the number of hands. -/
def HandChange.recordName (operation : HandOperation) (slot : String) : String :=
  match operation with
  | .add | .subtract => appliedName slot
  | .set => snapshotName slot

namespace Effect

/-- What the compilation of an effect asks the storage for. -/
def slotRequest? (trigger : Trigger) (effect : Effect) : Option SlotRequest :=
  match effect.kind, trigger.triggerClass with
  | .editHand _, .passive => some ⟨"hand_change", HandChange.passiveSuffixes⟩
  | .editHand _, _ => some ⟨"hands", valueSuffixes⟩
  | .modifyBlind _, _ => some ⟨"blind_size", valueSuffixes⟩
  | _, _ => none

/-- The variable that the blocks of an effect assign, if they assign one. -/
def record? (trigger : Trigger) (s : Storage) (effect : Effect) : Option String :=
  match effect.kind, trigger.triggerClass with
  | .editHand params, .passive =>
    some (HandChange.recordName params.operation
      (s.claimedName "hand_change" HandChange.passiveSuffixes))
  | _, _ => none

/-- Does the effect set the number of hands while the joker is held? Then its record is the
number seen before, which is not declared. -/
def setsWhileHeld (trigger : Trigger) (effect : Effect) : Bool :=
  match effect.kind, trigger.triggerClass with
  | .editHand params, .passive => params.operation == .set
  | _, _ => false

/-- **What the compilation of an effect makes**, from the storage `s` to `t`. -/
structure Makes (setting : Setting) (trigger : Trigger) (effect : Effect) (s : Storage)
    (body : EffectBody) (vars : List StoredVariable) (t : Storage) : Prop where
  serves : s.Serves (effect.slotRequest? trigger) vars t
  triggerClass : body.blocks.triggerClass = trigger.triggerClass
  hook : body.hook = effect.kind.hook? setting.joker.key
  blocks : ∀ b ∈ body.blocks.toList,
    BlockUsesAll (PathUse.KeepsTo t.names (effect.record? trigger s).toList) b
  message : ∀ e ∈ body.message, e.UsesAll (PathUse.KeepsTo t.names [])
  record : ∀ name ∈ effect.record? trigger s, effect.setsWhileHeld trigger = true ↔ name ∉ t.names

end Effect

/-! ### Uses of blocks -/

section Blocks

variable {names records : List String}

theorem usesAll_messageOr {usual : Expr} (h : usual.UsesAll (PathUse.KeepsTo names records))
    (effect : Effect) : (effect.messageOr usual).UsesAll (PathUse.KeepsTo names records) := by
  rw [Effect.messageOr]
  split
  · exact Expr.usesAll_str _
  · exact h

theorem usesAll_amountMessage {value : Expr} (h : value.UsesAll (PathUse.KeepsTo names records))
    (before after : String) :
    (amountMessage before value after).UsesAll (PathUse.KeepsTo names records) := by
  have hword := keepsTo_vocabulary names records
  refine Expr.usesAll_concat ?_
  simp +decide [hword _ _ _, h]

@[simp] theorem forall_uses_statusText (message : Expr) (colour : Colour) :
    (∀ u ∈ (statusText message colour).uses, PathUse.KeepsTo names records u) ↔
      message.UsesAll (PathUse.KeepsTo names records) := by
  have hword := keepsTo_vocabulary names records
  have hcolour : colour.path ∈ vocabulary := by cases colour <;> decide
  simp +decide [statusText, Expr.or, hword _ _ _, hcolour]

@[simp] theorem forall_uses_scheduled (body : Block) :
    (∀ u ∈ (scheduled body).uses, PathUse.KeepsTo names records u) ↔
      BlockUsesAll (PathUse.KeepsTo names records) body := by
  have hword := keepsTo_vocabulary names records
  simp +decide [scheduled, hword _ _ _]

/-- A change with a message, for either class of triggers. -/
theorem EffectBody.usesAll_triggered (triggerClass : TriggerClass) {setup change : Block}
    {message : Expr} (colour : Colour) (hsetup : BlockUsesAll (PathUse.KeepsTo names []) setup)
    (hmessage : message.UsesAll (PathUse.KeepsTo names []))
    (hchange : BlockUsesAll (PathUse.KeepsTo names []) change) :
    (∀ b ∈ (triggered triggerClass setup message colour change).blocks.toList,
        BlockUsesAll (PathUse.KeepsTo names []) b) ∧
      ∀ e ∈ (triggered triggerClass setup message colour change).message,
        e.UsesAll (PathUse.KeepsTo names []) := by
  cases triggerClass <;>
    simp [triggered, EffectBlocks.toList, hsetup, hmessage, hchange]

theorem JokerCreation.usesAll_attempt (naming : Naming) (params : JokerCreation) :
    BlockUsesAll (PathUse.KeepsTo names records) (params.attempt naming) := by
  have hword := keepsTo_vocabulary names records
  have hspec : (cardSpec naming params.selection).UsesAll (PathUse.KeepsTo names records) := by
    cases params.selection <;> simp [cardSpec]
  have hdecoration : ∀ method name,
      BlockUsesAll (PathUse.KeepsTo names records) (decoration method name) := by
    intro method name
    cases name <;> simp +decide [decoration, newCard, hword _ _ _]
  have hcreation : BlockUsesAll (PathUse.KeepsTo names records) (params.creation naming) := by
    rw [creation, decorations]
    split <;> split <;>
      simp +decide [hword _ _ _, hspec, hdecoration, newCard, jokerBuffer]
  rw [attempt]
  split <;>
    simp +decide [hword _ _ _, hcreation, hasRoom, Expr.lt, Expr.plus, Expr.length, created,
      jokerBuffer]

theorem ConsumableRemoval.usesAll_block (naming : Naming) (effect : Effect)
    (params : ConsumableRemoval) :
    BlockUsesAll (PathUse.KeepsTo names records) (params.block naming effect) := by
  have hword := keepsTo_vocabulary names records
  have hcollect : BlockUsesAll (PathUse.KeepsTo names records) (collect params.target) := by
    rw [collect]
    rcases params.target with _ | ⟨set, _ | card⟩ <;>
      simp +decide [filter?, hword _ _ _, Expr.equals, Expr.and, targets]
  have hmessage : (effect.messageOr (.str "Destroyed Consumable!")).UsesAll
      (PathUse.KeepsTo names records) :=
    usesAll_messageOr (Expr.usesAll_str _) effect
  simp +decide [block, destroy, hword _ _ _, hcollect, hmessage, targets, chosen, Expr.gt,
    Expr.length]

theorem HandChange.usesAll_change {v : Expr} (hv : v.UsesAll (PathUse.KeepsTo names records))
    (duration : Duration) (operation : HandOperation) :
    BlockUsesAll (PathUse.KeepsTo names records) (change duration operation v) := by
  have hword := keepsTo_vocabulary names records
  cases duration <;> cases operation <;>
    simp +decide [change, permanentChange, roundChange, hword _ _ _, hv, Expr.plus, Expr.minus,
      Expr.opposite, roundHands, handsLeft]

theorem HandChange.usesAll_message {v : Expr} (hv : v.UsesAll (PathUse.KeepsTo names records))
    (operation : HandOperation) :
    (HandChange.message operation v).UsesAll (PathUse.KeepsTo names records) := by
  cases operation <;> exact usesAll_amountMessage hv _ _

theorem BlindChange.usesAll_change {v : Expr} (hv : v.UsesAll (PathUse.KeepsTo names records))
    (operation : BlindOperation) :
    BlockUsesAll (PathUse.KeepsTo names records) (change operation v) := by
  have hword := keepsTo_vocabulary names records
  cases operation <;>
    simp +decide [change, newChips, hword _ _ _, hv, Expr.plus, Expr.minus, Expr.times,
      Expr.dividedBy, blindChips]

theorem usesAll_refreshCosts : BlockUsesAll (PathUse.KeepsTo names records) refreshCosts := by
  have hword := keepsTo_vocabulary names records
  simp +decide [refreshCosts, hword _ _ _]

theorem RerollGrant.usesAll_change (amount : Number) :
    BlockUsesAll (PathUse.KeepsTo names records) (change amount) := by
  have hword := keepsTo_vocabulary names records
  simp +decide [change, hword _ _ _]

/-- The uses of a quantity that is ready for use. The local variable of a draw is called after
the slot, so it is not in the storage of the joker. -/
theorem BoundQuantity.usesAll_ofResolved {slot : String} {r : Resolved}
    (hslot : storedName? (slot ++ "_value") = none)
    (hr : r.expr.UsesAll (PathUse.KeepsTo names records)) :
    BlockUsesAll (PathUse.KeepsTo names records) (ofResolved slot r).setup ∧
      (ofResolved slot r).value.UsesAll (PathUse.KeepsTo names records) := by
  rw [ofResolved]
  split
  · exact ⟨blockUsesAll_nil, hr⟩
  · simp [hr, PathUse.keepsTo_elsewhere hslot]

section Held

variable {q : BoundQuantity} (hsetup : BlockUsesAll (PathUse.KeepsTo names records) q.setup)
  (hvalue : q.value.UsesAll (PathUse.KeepsTo names records))

include hsetup hvalue

theorem HandChange.usesAll_heldAdd (hrecord : appliedName q.slot ∈ records) :
    ∀ b ∈ (heldAdd q).toList, BlockUsesAll (PathUse.KeepsTo names records) b := by
  have hword := keepsTo_vocabulary names records
  simp +decide [EffectBlocks.toList, heldAdd, hword _ _ _, PathUse.keepsTo_record hrecord, hsetup,
    hvalue, Expr.plus, Expr.minus, Expr.or, roundHands]

theorem HandChange.usesAll_heldSubtract (hrecord : appliedName q.slot ∈ records) :
    ∀ b ∈ (heldSubtract q).toList, BlockUsesAll (PathUse.KeepsTo names records) b := by
  have hword := keepsTo_vocabulary names records
  simp +decide [EffectBlocks.toList, heldSubtract, hword _ _ _, PathUse.keepsTo_record hrecord,
    hsetup, hvalue, Expr.plus, Expr.minus, Expr.or, roundHands]

theorem HandChange.usesAll_heldSet (hrecord : snapshotName q.slot ∈ records) :
    ∀ b ∈ (heldSet q).toList, BlockUsesAll (PathUse.KeepsTo names records) b := by
  have hword := keepsTo_vocabulary names records
  simp +decide [EffectBlocks.toList, heldSet, hword _ _ _, PathUse.keepsTo_record hrecord, hsetup,
    hvalue, roundHands]

end Held

/-- The blocks of a held change use its record, and what its quantity reads. -/
theorem HeldChange.usesAll_blocks {c : HeldChange}
    (hrecord : HandChange.recordName c.operation c.slot ∈ records)
    (hslot : storedName? (c.slot ++ "_value") = none)
    (hr : c.resolved.expr.UsesAll (PathUse.KeepsTo names records)) :
    ∀ b ∈ c.blocks.toList, BlockUsesAll (PathUse.KeepsTo names records) b := by
  obtain ⟨hsetup, hvalue⟩ := BoundQuantity.usesAll_ofResolved hslot hr
  have hname : c.quantity.slot = c.slot := BoundQuantity.slot_ofResolved c.slot c.resolved
  rw [blocks]
  cases hop : c.operation with
  | add =>
      rw [hop, HandChange.recordName, ← hname] at hrecord
      exact HandChange.usesAll_heldAdd hsetup hvalue hrecord
  | subtract =>
      rw [hop, HandChange.recordName, ← hname] at hrecord
      exact HandChange.usesAll_heldSubtract hsetup hvalue hrecord
  | set =>
      rw [hop, HandChange.recordName, ← hname] at hrecord
      exact HandChange.usesAll_heldSet hsetup hvalue hrecord

end Blocks

/-! ### Quantities of slots -/

/-- The local variable of a draw is called after its slot, and no slot begins as the path of the
storage does. -/
theorem storedName?_drawn {base : String} {c : Char} (hhead : c ∈ base.toList.head?) (hc : c ≠ 'c')
    (s : Storage) (suffixes : List String) :
    storedName? (s.claimedName base suffixes ++ "_value") = none := by
  obtain ⟨n, hn⟩ := s.claimedName_eq_candidate base suffixes
  obtain ⟨digits, -, hlist⟩ := Storage.candidate_toList base n
  refine storedName?_of_head (c := c) ?_ hc
  rw [hn, String.toList_append, hlist]
  cases hbase : base.toList with
  | nil => simp [hbase] at hhead
  | cons d ds => simpa [hbase] using hhead

/-- Binding a quantity serves a request, and its code reads declared variables only. -/
theorem run_bindQuantity_serves (setting : Setting) (base : String) (q : Quantity)
    (owner : EffectId) {c : Char} (hhead : c ∈ base.toList.head?) (hc : c ≠ 'c') {s : Storage}
    (hs : s.Reachable) :
    ∃ bound vars t, (bindQuantity setting base valueSuffixes q owner).run s = (.ok bound, t) ∧
      s.Serves (some ⟨base, valueSuffixes⟩) vars t ∧
      BlockUsesAll (PathUse.KeepsTo t.names []) bound.setup ∧
      bound.value.UsesAll (PathUse.KeepsTo t.names []) := by
  obtain ⟨r, hrun, hr⟩ :=
    run_bindQuantity setting base valueSuffixes (List.Subset.refl _) q owner hs
  obtain ⟨hforms, hnodup⟩ := configVariables_settled setting.naming (s.claim base valueSuffixes).2
    (.declared (s.claimedName base valueSuffixes) owner.text) (s.claimedName base valueSuffixes)
    (fun _ => rfl) (Source.ofQuantity q)
  rw [← hr] at hforms hnodup
  refine ⟨_, r.configVariables, _, hrun, .slot hforms hnodup, ?_⟩
  refine BoundQuantity.usesAll_ofResolved (storedName?_drawn hhead hc s valueSuffixes) ?_
  rw [hr]
  refine usesAll_settled (keepsTo_vocabulary _ _) _ _ _ _ _ fun name hname => ?_
  refine PathUse.keepsTo_read (reads_settled ?_ (fun v hv => ?_) name hname)
  · rw [Storage.names_addingAll]
    exact List.subset_append_left _ _
  · rw [Storage.names_addingAll]
    exact List.mem_append_right _ (List.mem_map_of_mem hv)

/-! ### Effects by kind -/

section Kinds

variable (setting : Setting) {trigger : Trigger} {effect : Effect} {s : Storage}

/-- Only an effect of a held joker has a record. -/
theorem Effect.record?_of_ne_passive (hclass : trigger.triggerClass ≠ .passive) :
    effect.record? trigger s = none := by
  rw [record?]
  split
  · rename_i hpassive
    exact absurd hpassive hclass
  · rfl

/-- An effect without a slot has no record. -/
theorem Effect.record?_of_slotless (hslot : effect.slotRequest? trigger = none) :
    effect.record? trigger s = none := by
  rw [slotRequest?] at hslot
  rw [record?]
  split
  · rename_i params hkind hpassive
    rw [hkind, hpassive] at hslot
    cases hslot
  · rfl

/-- An effect without a slot leaves the storage as it is. -/
theorem Effect.makes_of_slotless {body : EffectBody} (hslot : effect.slotRequest? trigger = none)
    (hclass : body.blocks.triggerClass = trigger.triggerClass)
    (hhook : body.hook = effect.kind.hook? setting.joker.key)
    (hblocks : ∀ b ∈ body.blocks.toList, BlockUsesAll (PathUse.KeepsTo s.names []) b)
    (hmessage : ∀ e ∈ body.message, e.UsesAll (PathUse.KeepsTo s.names [])) :
    effect.Makes setting trigger s body [] s :=
  { serves := hslot ▸ .nothing
    triggerClass := hclass
    hook := hhook
    blocks := by rw [record?_of_slotless hslot]; exact hblocks
    message := hmessage
    record := by rw [record?_of_slotless hslot]; exact nofun }

/-- An effect with a slot for its quantity, and with a message. -/
theorem Effect.makes_triggered {request : SlotRequest} {vars : List StoredVariable} {t : Storage}
    {setup change : Block} {message : Expr} {colour : Colour}
    (hserves : s.Serves (some request) vars t)
    (hslot : effect.slotRequest? trigger = some request)
    (hclass : trigger.triggerClass ≠ .passive)
    (hhook : effect.kind.hook? setting.joker.key = none)
    (hsetup : BlockUsesAll (PathUse.KeepsTo t.names []) setup)
    (hmessage : message.UsesAll (PathUse.KeepsTo t.names []))
    (hchange : BlockUsesAll (PathUse.KeepsTo t.names []) change) :
    effect.Makes setting trigger s
      (.triggered trigger.triggerClass setup message colour change) vars t := by
  obtain ⟨hblocks, hmessages⟩ := EffectBody.usesAll_triggered trigger.triggerClass colour
    hsetup hmessage hchange
  refine
    { serves := hslot ▸ hserves
      triggerClass := ?_
      hook := ?_
      blocks := by rw [record?_of_ne_passive hclass]; exact hblocks
      message := hmessages
      record := by rw [record?_of_ne_passive hclass]; exact nofun }
  · cases htrigger : trigger.triggerClass with
    | scoring | immediate => rfl
    | passive => exact absurd htrigger hclass
  · rw [hhook]
    cases trigger.triggerClass <;> rfl

theorem JokerCreation.run_code {params : JokerCreation} (hkind : effect.kind = .createJoker params)
    (hclass : trigger.triggerClass ≠ .passive) :
    ∃ body vars t, (params.code setting trigger.triggerClass effect).run s = (.ok body, t) ∧
      effect.Makes setting trigger s body vars t := by
  have hword := keepsTo_vocabulary s.names []
  have hattempt : BlockUsesAll (PathUse.KeepsTo s.names []) (params.attempt setting.naming) :=
    usesAll_attempt setting.naming params
  have hplus : plusJoker.UsesAll (PathUse.KeepsTo s.names []) := by
    simp +decide [plusJoker, hword _ _ _]
  have hslot : effect.slotRequest? trigger = none := by rw [Effect.slotRequest?, hkind]
  have hhook : none = effect.kind.hook? setting.joker.key := by rw [hkind]; rfl
  cases htrigger : trigger.triggerClass with
  | passive => exact absurd htrigger hclass
  | scoring =>
      have husual : ((Expr.path created).and plusJoker |>.or .nil).UsesAll
          (PathUse.KeepsTo s.names []) := by
        simp +decide [Expr.and, Expr.or, created, hword _ _ _, hplus]
      refine ⟨_, [], s, rfl, Effect.makes_of_slotless setting hslot htrigger.symm hhook ?_ ?_⟩
      · simpa [EffectBlocks.toList] using hattempt
      · simpa using usesAll_messageOr husual effect
  | immediate =>
      refine ⟨_, [], s, rfl, Effect.makes_of_slotless setting hslot htrigger.symm hhook ?_ ?_⟩
      · simpa +decide [EffectBlocks.toList, hattempt, created, hword _ _ _] using
          usesAll_messageOr hplus effect
      · rintro _ ⟨⟩

theorem ConsumableRemoval.run_code {params : ConsumableRemoval}
    (hkind : effect.kind = .destroyConsumable params) (hclass : trigger.triggerClass ≠ .passive) :
    ∃ body vars t, (params.code setting trigger.triggerClass effect).run s = (.ok body, t) ∧
      effect.Makes setting trigger s body vars t := by
  have hblock : BlockUsesAll (PathUse.KeepsTo s.names []) (params.block setting.naming effect) :=
    usesAll_block setting.naming effect params
  have hslot : effect.slotRequest? trigger = none := by rw [Effect.slotRequest?, hkind]
  have hhook : none = effect.kind.hook? setting.joker.key := by rw [hkind]; rfl
  cases htrigger : trigger.triggerClass with
  | passive => exact absurd htrigger hclass
  | scoring | immediate =>
      refine ⟨_, [], s, rfl, Effect.makes_of_slotless setting hslot htrigger.symm hhook ?_ ?_⟩
      · exact List.forall_mem_singleton.mpr hblock
      · rintro _ ⟨⟩

theorem BlindChange.run_code {params : BlindChange} (hkind : effect.kind = .modifyBlind params)
    (hclass : trigger.triggerClass ≠ .passive) (hs : s.Reachable) :
    ∃ body vars t, (params.code setting trigger.triggerClass effect).run s = (.ok body, t) ∧
      effect.Makes setting trigger s body vars t := by
  obtain ⟨bound, vars, t, hrun, hserves, hsetup, hvalue⟩ :=
    run_bindQuantity_serves setting "blind_size" params.value effect.id (c := 'b')
      (by simp) (by decide) hs
  refine ⟨_, vars, t, by rw [code, if_neg hclass]; exact Resolver.run_bind_of_ok _ hrun, ?_⟩
  exact Effect.makes_triggered setting hserves (by rw [Effect.slotRequest?, hkind]) hclass
    (by rw [hkind]; rfl) hsetup
    (usesAll_messageOr (usesAll_amountMessage hvalue _ _) effect) (usesAll_change hvalue _)

/-- A change to the number of hands at a trigger. -/
theorem HandChange.run_code_triggered {params : HandChange} (hkind : effect.kind = .editHand params)
    (hclass : trigger.triggerClass ≠ .passive) (hs : s.Reachable) :
    ∃ body vars t, (params.code setting trigger.triggerClass effect).run s = (.ok body, t) ∧
      effect.Makes setting trigger s body vars t := by
  obtain ⟨bound, vars, t, hrun, hserves, hsetup, hvalue⟩ :=
    run_bindQuantity_serves setting "hands" params.value effect.id (c := 'h')
      (by simp) (by decide) hs
  refine ⟨_, vars, t, by rw [code, if_neg hclass]; exact Resolver.run_bind_of_ok _ hrun, ?_⟩
  refine Effect.makes_triggered setting hserves ?_ hclass (by rw [hkind]; rfl) hsetup
    (usesAll_messageOr (usesAll_message hvalue _) effect) (usesAll_change hvalue _ _)
  rw [Effect.slotRequest?, hkind]
  cases htrigger : trigger.triggerClass with
  | passive => exact absurd htrigger hclass
  | scoring | immediate => rfl

/-- A change to the number of hands while the joker is held. -/
theorem HandChange.run_code_held {params : HandChange} (hkind : effect.kind = .editHand params)
    (hclass : trigger.triggerClass = .passive) (hs : s.Reachable) :
    ∃ body vars t, (params.code setting trigger.triggerClass effect).run s = (.ok body, t) ∧
      effect.Makes setting trigger s body vars t := by
  obtain ⟨c, hop, hslot, hr, hrun⟩ := run_passiveCode setting effect params hs
  obtain ⟨hforms, hnodup⟩ := configVariables_settled setting.naming
    (s.claim "hand_change" passiveSuffixes).2 (.declared c.slot effect.id.text) c.slot
    (fun _ => rfl) (Source.ofQuantity params.value)
  rw [← hr] at hforms hnodup
  obtain ⟨hvars, hvarsNodup⟩ := c.vars_spec hforms hnodup
  have hclaimed : c.forms = SlotRequest.forms ⟨"hand_change", passiveSuffixes⟩ s := by
    rw [HeldChange.forms, hslot]
    rfl
  have hserves : s.Serves (some ⟨"hand_change", passiveSuffixes⟩) c.vars (c.storageAfter s) :=
    .slot (fun v hv => hclaimed ▸ (hvars v hv).1) hvarsNodup
  have hrecord : effect.record? trigger s = some (recordName c.operation c.slot) := by
    rw [Effect.record?, hkind, hclass, hop, hslot]
  have hsets : effect.setsWhileHeld trigger = (c.operation == .set) := by
    rw [Effect.setsWhileHeld, hkind, hclass, hop]
  refine ⟨{ blocks := c.blocks }, c.vars, c.storageAfter s, ?_, ?_⟩
  · rw [code, if_pos hclass]
    exact hrun
  · refine
      { serves := by rw [Effect.slotRequest?, hkind, hclass]; exact hserves
        triggerClass := ?_
        hook := by rw [hkind]; rfl
        blocks := ?_
        message := ?_
        record := ?_ }
    · rw [hclass, HeldChange.blocks]
      cases c.operation <;> rfl
    · rw [hrecord]
      refine HeldChange.usesAll_blocks (List.mem_singleton_self _) ?_ ?_
      · rw [hslot]
        exact storedName?_drawn (c := 'h') (by simp) (by decide) s passiveSuffixes
      · rw [hr]
        refine usesAll_settled (keepsTo_vocabulary _ _) _ _ _ _ _ fun name hname => ?_
        refine PathUse.keepsTo_read (reads_settled ?_ (fun v hv => ?_) name hname)
        · rw [HeldChange.storageAfter, Storage.names_addingAll]
          exact List.subset_append_left _ _
        · rw [← hr] at hv
          rw [hserves.names, HeldChange.vars, List.map_append]
          exact List.mem_append_right _ (List.mem_append_left _ (List.mem_map_of_mem hv))
    · rintro _ ⟨⟩
    · rw [hrecord, hsets]
      rintro name ⟨⟩
      cases hc : c.operation with
      | add =>
          have hmem : c.applied ∈ (c.storageAfter s).names := by
            rw [hserves.names, HeldChange.vars, hc]
            simp
          exact iff_of_false (by simp) (fun hnot => hnot hmem)
      | subtract =>
          have hmem : c.applied ∈ (c.storageAfter s).names := by
            rw [hserves.names, HeldChange.vars, hc]
            simp
          exact iff_of_false (by simp) (fun hnot => hnot hmem)
      | set =>
          have hnot : c.original ∉ (c.storageAfter s).names := by
            refine hserves.notMem_names hs (hclaimed ▸ c.original_mem_forms) fun hmem => ?_
            obtain ⟨v, hv, hname⟩ := List.mem_map.mp hmem
            exact (hvars v hv).2 hname
          exact iff_of_true rfl hnot

theorem Discount.run_code {params : Discount} (hkind : effect.kind = .discountItems params)
    (hclass : trigger.triggerClass = .passive) :
    ∃ body vars t, (params.code setting trigger.triggerClass effect).run s = (.ok body, t) ∧
      effect.Makes setting trigger s body vars t := by
  rw [hclass]
  refine ⟨_, [], s, rfl, Effect.makes_of_slotless setting (by rw [Effect.slotRequest?, hkind])
    hclass.symm (by rw [hkind]; rfl) ?_ nofun⟩
  simp [EffectBlocks.toList, usesAll_refreshCosts]

theorem RerollGrant.run_code {params : RerollGrant} (hkind : effect.kind = .freeRerolls params)
    (hclass : trigger.triggerClass = .passive) :
    ∃ body vars t, (params.code trigger.triggerClass effect).run s = (.ok body, t) ∧
      effect.Makes setting trigger s body vars t := by
  rw [hclass]
  refine ⟨_, [], s, rfl, Effect.makes_of_slotless setting (by rw [Effect.slotRequest?, hkind])
    hclass.symm (by rw [hkind]; rfl) ?_ nofun⟩
  simp [EffectBlocks.toList, usesAll_change]

theorem SuitPair.run_code {params : SuitPair} (hkind : effect.kind = .combineSuits params)
    (hclass : trigger.triggerClass = .passive) :
    ∃ body vars t, (params.code setting trigger.triggerClass effect).run s = (.ok body, t) ∧
      effect.Makes setting trigger s body vars t := by
  rw [hclass]
  refine ⟨_, [], s, rfl, Effect.makes_of_slotless setting (by rw [Effect.slotRequest?, hkind])
    hclass.symm (by rw [hkind]; rfl) ?_ nofun⟩
  simp [EffectBlocks.toList]

end Kinds

/-! ### Outcomes -/

namespace Effect

variable (setting : Setting) {trigger : Trigger} {effect : Effect} {s : Storage}

theorem run_code_of_hasShape (h : effect.kind.hasShape trigger.triggerClass = true)
    (hs : s.Reachable) :
    ∃ body vars t,
      (effect.kind.code setting trigger.triggerClass effect).run s = (.ok body, t) ∧
      effect.Makes setting trigger s body vars t := by
  cases hkind : effect.kind with
  | createJoker params =>
      exact JokerCreation.run_code setting hkind (by simpa [hkind, EffectKind.hasShape] using h)
  | destroyConsumable params =>
      exact ConsumableRemoval.run_code setting hkind (by simpa [hkind, EffectKind.hasShape] using h)
  | editHand params =>
      by_cases hclass : trigger.triggerClass = .passive
      · exact HandChange.run_code_held setting hkind hclass hs
      · exact HandChange.run_code_triggered setting hkind hclass hs
  | modifyBlind params =>
      exact BlindChange.run_code setting hkind (by simpa [hkind, EffectKind.hasShape] using h) hs
  | discountItems params =>
      exact Discount.run_code setting hkind (by simpa [hkind, EffectKind.hasShape] using h)
  | freeRerolls params =>
      exact RerollGrant.run_code setting hkind (by simpa [hkind, EffectKind.hasShape] using h)
  | combineSuits params =>
      exact SuitPair.run_code setting hkind (by simpa [hkind, EffectKind.hasShape] using h)

/-- Compilation adds the variables that the code has declared. -/
theorem run_compile_of_run_code {body : EffectBody} {t : Storage}
    (h : (effect.kind.code setting trigger.triggerClass effect).run s = (.ok body, t)) :
    (effect.compile setting trigger).run s =
      (.ok ⟨effect.id, effect.kind.tag, body, t.declaredSince s.declared.length⟩, t) := by
  have hget : ∀ s : Storage, (get : Resolver Storage).run s = (.ok s, s) := fun _ => rfl
  rw [compile, Resolver.run_bind_of_ok _ (hget s), Resolver.run_bind_of_ok _ h,
    Resolver.run_bind_of_ok _ (hget t)]
  rfl

/-- **An effect whose kind has the shape of the class** is compiled, from every reachable
storage. -/
theorem run_compile_of_hasShape (h : effect.kind.hasShape trigger.triggerClass = true)
    (hs : s.Reachable) :
    ∃ code t, (effect.compile setting trigger).run s = (.ok code, t) ∧ code.id = effect.id ∧
      code.kind = effect.kind.tag ∧ effect.Makes setting trigger s code.body code.vars t := by
  obtain ⟨body, vars, t, hrun, hmakes⟩ := run_code_of_hasShape setting h hs
  have hvars : t.declaredSince s.declared.length = vars := by
    rw [Storage.declaredSince, hmakes.serves.declared, List.drop_left]
  refine ⟨⟨effect.id, effect.kind.tag, body, vars⟩, t, ?_, rfl, rfl, hmakes⟩
  rw [run_compile_of_run_code setting hrun, hvars]

/-- **An effect whose kind lacks the shape of the class** fails, and asks the storage for
nothing. -/
theorem run_compile_of_not_hasShape (h : effect.kind.hasShape trigger.triggerClass = false)
    (s : Storage) :
    (effect.compile setting trigger).run s =
      (.error (effect.missingShape trigger.triggerClass), s) := by
  have hcode : (effect.kind.code setting trigger.triggerClass effect).run s =
      (.error (effect.missingShape trigger.triggerClass), s) := by
    cases hkind : effect.kind <;> rw [hkind, EffectKind.hasShape] at h
    case createJoker | destroyConsumable | modifyBlind =>
      have hclass : trigger.triggerClass = .passive := by simpa using h
      rw [hclass]
      rfl
    case editHand => cases h
    case discountItems | freeRerolls | combineSuits =>
      have hclass : trigger.triggerClass ≠ .passive := by simpa using h
      cases htrigger : trigger.triggerClass with
      | passive => exact absurd htrigger hclass
      | scoring | immediate => rfl
  have hget : (get : Resolver Storage).run s = (.ok s, s) := rfl
  rw [compile, Resolver.run_bind_of_ok _ hget, Resolver.run_bind, hcode]

/-- What is known of an effect that was compiled. -/
theorem makes_of_run_compile {code : EffectCode} {t : Storage} (hs : s.Reachable)
    (hrun : (effect.compile setting trigger).run s = (.ok code, t)) :
    effect.kind.hasShape trigger.triggerClass = true ∧ code.id = effect.id ∧
      code.kind = effect.kind.tag ∧ effect.Makes setting trigger s code.body code.vars t := by
  cases hshape : effect.kind.hasShape trigger.triggerClass with
  | false =>
      rw [run_compile_of_not_hasShape setting hshape] at hrun
      cases hrun
  | true =>
      obtain ⟨code', t', hrun', hmakes⟩ := run_compile_of_hasShape setting hshape hs
      rw [hrun] at hrun'
      cases hrun'
      exact ⟨rfl, hmakes⟩

/-- Compiling an effect only extends the storage. -/
theorem orderly_compile (trigger : Trigger) : Orderly (Effect.compile setting trigger) := by
  intro s t effect code hs hrun
  obtain ⟨-, -, -, hmakes⟩ := makes_of_run_compile setting hs hrun
  exact ⟨hmakes.serves.reachable hs, hmakes.serves.extended⟩

/-- What is known of a turn of an effect. -/
theorem turn_spec {effects : List Effect} (hs : s.Reachable) {turn : Turn Effect EffectCode}
    (h : turn ∈ turns (Effect.compile setting trigger) s effects) :
    turn.code.id = turn.item.id ∧ turn.code.kind = turn.item.kind.tag ∧
      turn.item.Makes setting trigger turn.before turn.code.body turn.code.vars turn.after := by
  have hbefore := (mem_turns_between (orderly_compile setting trigger) hs h).1
  exact (makes_of_run_compile setting hbefore (run_of_mem_turns h).2).2

end Effect

end JokerScript
