import JokerScript.Proofs.Effect.Written
import JokerScript.Proofs.Resolve.Draws

/-!
# Draws of Effects

An effect draws at most once. The quantity of a change is drawn into a local variable before it
is used, so that all its uses see one number; and of the consumables that may be destroyed, one
is chosen. What else is in the code of an effect draws nothing.

## Main definitions

* `EffectBody.draws` — the draws in the code of an effect.
* `Effect.draw?` — the draw of an effect.

## Main results

* `Effect.Writes.draws` — the code of an effect has the draw of the effect, and no other.
-/

namespace JokerScript

open Lua

/-- The draws in the code of an effect. -/
def EffectBody.draws (body : EffectBody) : List DrawCall :=
  body.blocks.toList.flatMap blockDraws ++ body.message.toList.flatMap Expr.draws

namespace Effect

/-- The draw of a quantity of the effect, if it is drawn. -/
def numberDraw? (trigger : Trigger) (s : Storage) (effect : Effect) (q : Quantity) :
    Option Draw :=
  (effect.slotRequest? trigger).bind fun request =>
    (Source.ofQuantity q).draw? (request.slot s) effect.id.text

/-- The draw of the effect, if it draws. -/
def draw? (trigger : Trigger) (s : Storage) (effect : Effect) : Option Draw :=
  match effect.kind with
  | .editHand params => effect.numberDraw? trigger s params.value
  | .modifyBlind params => effect.numberDraw? trigger s params.value
  | .destroyConsumable _ => some (.consumable effect.id.text)
  | .createJoker _ | .discountItems _ | .freeRerolls _ | .combineSuits _ => none

variable {trigger : Trigger} {s : Storage} {effect : Effect}

theorem base_mem_slotBases {request : SlotRequest} (h : request ∈ effect.slotRequest? trigger) :
    request.base ∈ slotBases := by
  rw [slotRequest?] at h
  split at h <;> cases h <;> decide

theorem numberDraw?_spec {q : Quantity} {d : Draw} (h : d ∈ effect.numberDraw? trigger s q) :
    IsStreamName d.name ∧ ∃ request ∈ effect.slotRequest? trigger, d.name = request.slot s := by
  obtain ⟨request, hrequest, hd⟩ := Option.bind_eq_some_iff.mp h
  cases hq : Source.ofQuantity q with
  | range min max =>
      rw [hq] at hd
      obtain rfl := Option.some.inj hd
      exact ⟨isStreamName_slot (base_mem_slotBases hrequest) s request.suffixes, request, hrequest,
        rfl⟩
  | gameVar | named | number | unresolved =>
      rw [hq] at hd
      cases hd

/-- An effect draws a number under the slot that it claims, or else it chooses. -/
theorem draw?_spec {d : Draw} (h : d ∈ effect.draw? trigger s) :
    IsStreamName d.name ∧
      (d.isNumber = true → ∃ request ∈ effect.slotRequest? trigger, d.name = request.slot s) := by
  cases hkind : effect.kind with
  | editHand | modifyBlind =>
      rw [draw?, hkind] at h
      exact (numberDraw?_spec h).imp_right fun hslot _ => hslot
  | destroyConsumable params =>
      rw [draw?, hkind] at h
      obtain rfl := Option.some.inj h
      exact ⟨isStreamName_destroyConsumable, nofun⟩
  | createJoker | discountItems | freeRerolls | combineSuits =>
      rw [draw?, hkind] at h
      cases h

end Effect

/-! ### Code that does not draw -/

theorem draws_messageOr {usual : Expr} (h : usual.draws = []) (effect : Effect) :
    (effect.messageOr usual).draws = [] := by
  rw [Effect.messageOr]
  split
  · rfl
  · exact h

@[simp] theorem draws_amountMessage (before : String) (value : Expr) (after : String) :
    (amountMessage before value after).draws = value.draws := by
  simp [amountMessage, callDraws, drawCallees]

@[simp] theorem draws_statusText (message : Expr) (colour : Colour) :
    (statusText message colour).draws = message.draws := by
  simp [statusText, callDraws, drawCallees, Expr.or]

@[simp] theorem draws_scheduled (body : Block) : (scheduled body).draws = blockDraws body := by
  simp [scheduled, callDraws, drawCallees]

theorem HandChange.draws_change {v : Expr} (hv : v.draws = []) (duration : Duration)
    (operation : HandOperation) : blockDraws (change duration operation v) = [] := by
  cases duration <;> cases operation <;>
    simp [change, permanentChange, roundChange, hv, callDraws, drawCallees, Expr.plus, Expr.minus,
      Expr.opposite]

theorem HandChange.draws_message {v : Expr} (hv : v.draws = []) (operation : HandOperation) :
    (message operation v).draws = [] := by
  cases operation <;> simp [message, hv]

theorem BlindChange.draws_change {v : Expr} (hv : v.draws = []) (operation : BlindOperation) :
    blockDraws (change operation v) = [] := by
  cases operation <;>
    simp [change, newChips, hv, callDraws, drawCallees, Expr.plus, Expr.minus, Expr.times,
      Expr.dividedBy]

theorem JokerCreation.draws_decorations (params : JokerCreation) :
    blockDraws params.decorations = [] := by
  cases hedition : params.edition <;> cases hsticker : params.sticker <;>
    simp [decorations, decoration, newCard, hedition, hsticker]

theorem JokerCreation.draws_creation (naming : Naming) (params : JokerCreation) :
    blockDraws (params.creation naming) = [] := by
  have hspec : (cardSpec naming params.selection).draws = [] := by
    cases params.selection <;> simp [cardSpec]
  rw [creation]
  split <;> split <;> simp [hspec, params.draws_decorations, newCard, callDraws, drawCallees]

theorem JokerCreation.draws_attempt (naming : Naming) (params : JokerCreation) :
    blockDraws (params.attempt naming) = [] := by
  rw [attempt]
  split <;> simp [params.draws_creation, hasRoom, Expr.lt, Expr.plus, Expr.length]

theorem draws_refreshCosts : blockDraws refreshCosts = [] := by
  simp [refreshCosts]

theorem RerollGrant.draws_change (amount : Number) : blockDraws (change amount) = [] := by
  simp [change, callDraws, drawCallees]

/-! ### Code that draws -/

/-- Of the collected consumables, one is drawn. -/
theorem ConsumableRemoval.draws_block (naming : Naming) (effect : Effect)
    (params : ConsumableRemoval) :
    blockDraws (params.block naming effect) = [(Draw.consumable effect.id.text).call naming] := by
  have hmessage := draws_messageOr (Expr.draws_str "Destroyed Consumable!") effect
  have hcollect : blockDraws (collect params.target) = [] := by
    rw [collect]
    rcases params.target with _ | ⟨set, _ | card⟩ <;>
      simp [filter?, callDraws, drawCallees, Expr.equals, Expr.and]
  simp [block, destroy, hcollect, hmessage, callDraws, drawCallees, Expr.gt, Expr.length,
    Draw.call, Draw.seed, Draw.name, Draw.owner]

/-- A quantity is drawn where it is made ready, and its uses draw nothing. -/
theorem Effect.draws_bound (setting : Setting) {trigger : Trigger} {effect : Effect} (s : Storage)
    {request : SlotRequest} (hrequest : effect.slotRequest? trigger = some request)
    (q : Quantity) :
    blockDraws (effect.bound setting request s q).setup =
        ((effect.numberDraw? trigger s q).map (Draw.call setting.naming)).toList ∧
      (effect.bound setting request s q).value.draws = [] := by
  have hdraws : (effect.settled setting request s q).expr.draws =
      ((effect.numberDraw? trigger s q).map (Draw.call setting.naming)).toList := by
    rw [numberDraw?, hrequest, Option.bind_some]
    exact Source.draws_settled setting.naming _ _ _ _
  rw [bound, BoundQuantity.ofResolved]
  split
  · rename_i hstable
    have hnone : effect.numberDraw? trigger s q = none := by
      rw [numberDraw?, hrequest, Option.bind_some]
      exact Source.draw?_of_isStable hstable
    rw [hnone] at hdraws ⊢
    exact ⟨rfl, hdraws⟩
  · exact ⟨by simp [hdraws], rfl⟩

/-- The draws of a change with a message are those that make its quantity ready. -/
theorem EffectBody.draws_triggered (triggerClass : TriggerClass) {setup change : Block}
    {message : Expr} (colour : Colour) (hmessage : message.draws = [])
    (hchange : blockDraws change = []) :
    (triggered triggerClass setup message colour change).draws = blockDraws setup := by
  cases triggerClass <;>
    simp [triggered, draws, EffectBlocks.toList, hmessage, hchange]

/-- The same for a change while the joker is held: nothing is drawn when the joker goes. -/
theorem HeldChange.draws_blocks {c : HeldChange} (hvalue : c.quantity.value.draws = []) :
    c.blocks.toList.flatMap blockDraws = blockDraws c.quantity.setup := by
  rw [HeldChange.blocks]
  cases c.operation <;>
    simp [HandChange.heldAdd, HandChange.heldSubtract, HandChange.heldSet, EffectBlocks.toList,
      hvalue, callDraws, drawCallees, Expr.plus, Expr.minus, Expr.or]

/-- **The code of an effect has the draw of the effect**, and no other. -/
theorem Effect.Writes.draws {setting : Setting} {trigger : Trigger} {effect : Effect}
    {s : Storage} {body : EffectBody} (h : effect.Writes setting trigger s body) :
    body.draws = ((effect.draw? trigger s).map (Draw.call setting.naming)).toList := by
  have hplus : JokerCreation.plusJoker.draws = [] := by
    simp [JokerCreation.plusJoker, callDraws, drawCallees]
  cases h with
  | creation hkind hclass =>
      have husual : (((Expr.path JokerCreation.created).and JokerCreation.plusJoker).or
          .nil).draws = [] := by
        simp [Expr.and, Expr.or, hplus]
      simp [EffectBody.draws, EffectBlocks.toList, draw?, hkind, JokerCreation.draws_attempt,
        draws_messageOr husual]
  | creationAtOnce hkind hclass =>
      simp [EffectBody.draws, EffectBlocks.toList, draw?, hkind, JokerCreation.draws_attempt,
        draws_messageOr hplus]
  | removal hkind hclass =>
      simp [EffectBody.draws, EffectBlocks.toList, draw?, hkind, ConsumableRemoval.draws_block]
  | removalAtOnce hkind hclass =>
      simp [EffectBody.draws, EffectBlocks.toList, draw?, hkind, ConsumableRemoval.draws_block]
  | @handChange params q hkind hclass hq =>
      have hrequest : effect.slotRequest? trigger = some handsRequest := by
        cases hc : trigger.triggerClass with
        | passive => exact absurd hc hclass
        | scoring | immediate => rw [slotRequest?, hkind, hc]; rfl
      obtain ⟨hsetup, hvalue⟩ := draws_bound setting s hrequest params.value
      rw [← hq] at hsetup hvalue
      rw [EffectBody.draws_triggered _ _ (draws_messageOr (HandChange.draws_message hvalue _) _)
        (HandChange.draws_change hvalue _ _), hsetup, draw?, hkind]
  | @blindChange params q hkind hclass hq =>
      have hrequest : effect.slotRequest? trigger = some blindRequest := by
        rw [slotRequest?, hkind]
        rfl
      obtain ⟨hsetup, hvalue⟩ := draws_bound setting s hrequest params.value
      rw [← hq] at hsetup hvalue
      have hmessage := (draws_amountMessage (BlindChange.messageLead params.operation) q.value
        " Blind Size").trans hvalue
      rw [EffectBody.draws_triggered _ _ (draws_messageOr hmessage _)
        (BlindChange.draws_change hvalue _), hsetup, draw?, hkind]
  | @heldHandChange params c hkind hclass hop hslot hr =>
      have hrequest : effect.slotRequest? trigger = some heldRequest := by
        rw [slotRequest?, hkind, hclass]
        rfl
      obtain ⟨hsetup, hvalue⟩ := draws_bound setting s hrequest params.value
      have hquantity : c.quantity = effect.bound setting heldRequest s params.value := by
        rw [HeldChange.quantity, hslot, hr, bound]
      rw [← hquantity] at hsetup hvalue
      rw [EffectBody.draws, HeldChange.draws_blocks hvalue, hsetup, draw?, hkind]
      simp
  | discount hkind hclass =>
      simp [EffectBody.draws, EffectBlocks.toList, draw?, hkind, draws_refreshCosts]
  | rerollGrant hkind hclass =>
      simp [EffectBody.draws, EffectBlocks.toList, draw?, hkind, RerollGrant.draws_change]
  | suitPair hkind hclass =>
      simp [EffectBody.draws, EffectBlocks.toList, draw?, hkind]

end JokerScript
