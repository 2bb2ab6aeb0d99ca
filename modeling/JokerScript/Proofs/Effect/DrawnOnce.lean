import JokerScript.Proofs.Effect.Draws
import JokerScript.Proofs.Triggered.Compiled

/-!
# Amounts Are Drawn Once

The amount of a change stands in several statements and in the message. If it is a range, it is
drawn into a local variable by the first statement, and the code around it is that for the local
variable. Nothing else calls `pseudorandom`: where one of the consumables is chosen, only a seed is
drawn. When a joker is lost, nothing is drawn at all.

## Main definitions

* `EffectBody.randomCalls` — the calls of `pseudorandom` in the code of an effect.
* `Effect.HasRange` — the amount of the effect is a range.
* `Effect.around` — the code of a change around the expression of its amount.
* `Effect.DrawnOnce` — the amount is drawn once, and first.

## Main results

* `Effect.Writes.around` — the code of a change is the code around its amount.
* `Effect.around_eq_prepend` — what makes the amount ready goes first.
* `Effect.Writes.drawnOnce` — the code of each effect draws its amount once.
-/

namespace JokerScript

open Lua

/-! ### Calls -/

/-- The calls among some draws that draw a number. -/
def Lua.randomOf (draws : List DrawCall) : List DrawCall :=
  draws.filter fun d => d.callee = "pseudorandom"

@[simp] theorem Lua.randomOf_nil : randomOf [] = [] := rfl

/-- The calls of `pseudorandom` in the code of an effect. -/
def EffectBody.randomCalls (body : EffectBody) : List DrawCall := randomOf body.draws

/-- The call that draws the number of a slot. -/
def drawSlot (naming : Naming) (slot owner : String) : Expr :=
  .apply "pseudorandom"
    [.str (naming.seed slot owner), .extra (Resolved.minName slot), .extra (Resolved.maxName slot)]

/-- The local variable that the number of a slot is drawn into. -/
def drawnName (slot : String) : String := slot ++ "_value"

/-! ### Code around an amount -/

namespace EffectBlocks

/-- The blocks with statements before what is done first. -/
def prepend (setup : Block) : EffectBlocks → EffectBlocks
  | callback body => callback (setup ++ body)
  | beforeReturn body => beforeReturn (setup ++ body)
  | whileHeld gain loss => whileHeld (setup ++ gain) loss

end EffectBlocks

/-- The code with statements before what is done first. -/
def EffectBody.prepend (setup : Block) (body : EffectBody) : EffectBody :=
  { body with blocks := body.blocks.prepend setup }

/-- The draws of the statements before come first. -/
theorem EffectBody.draws_prepend (setup : Block) (body : EffectBody) :
    (body.prepend setup).draws = blockDraws setup ++ body.draws := by
  obtain ⟨blocks, message, colour, hook⟩ := body
  cases blocks <;> simp [prepend, EffectBlocks.prepend, draws, EffectBlocks.toList]

/-- The blocks of a change of a held joker. -/
def HandChange.heldBlocks (operation : HandOperation) (q : BoundQuantity) : EffectBlocks :=
  match operation with
  | .add => heldAdd q
  | .subtract => heldSubtract q
  | .set => heldSet q

theorem HeldChange.blocks_eq (c : HeldChange) :
    c.blocks = HandChange.heldBlocks c.operation c.quantity := by
  rw [blocks]
  cases c.operation <;> rfl

/-- **The code of a change around its amount**, which is used as often as it stands there. -/
def Effect.around (triggerClass : TriggerClass) (effect : Effect) (q : BoundQuantity) :
    Option EffectBody :=
  match effect.kind with
  | .editHand change =>
    if triggerClass = .passive then some { blocks := HandChange.heldBlocks change.operation q }
    else some (change.triggered triggerClass effect q)
  | .modifyBlind change => some (change.triggered triggerClass effect q)
  | .createJoker _ | .destroyConsumable _ | .discountItems _ | .freeRerolls _ | .combineSuits _ =>
    none

/-- The same amount, without what makes it ready. -/
def BoundQuantity.ready (q : BoundQuantity) : BoundQuantity := { q with setup := [] }

theorem EffectBody.triggered_setup (triggerClass : TriggerClass) (setup : Block) (message : Expr)
    (colour : Colour) (change : Block) :
    triggered triggerClass setup message colour change =
      (triggered triggerClass [] message colour change).prepend setup := by
  cases triggerClass <;> simp [triggered, prepend, EffectBlocks.prepend]

theorem HandChange.heldBlocks_setup (operation : HandOperation) (q : BoundQuantity) :
    heldBlocks operation q = (heldBlocks operation q.ready).prepend q.setup := by
  cases operation <;>
    simp [heldBlocks, heldAdd, heldSubtract, heldSet, EffectBlocks.prepend, BoundQuantity.ready]

namespace Effect

/-- **What makes an amount ready goes first**, and the rest is the code around the amount. -/
theorem around_eq_prepend {triggerClass : TriggerClass} {effect : Effect} {q : BoundQuantity}
    {body : EffectBody} (h : effect.around triggerClass q = some body) :
    ∃ rest, effect.around triggerClass q.ready = some rest ∧ body = rest.prepend q.setup := by
  rw [around] at h ⊢
  cases hkind : effect.kind <;> rw [hkind] at h
  case editHand change =>
    by_cases hclass : triggerClass = .passive
    · simp only [if_pos hclass] at h ⊢
      obtain rfl := Option.some.inj h
      exact ⟨_, rfl, by rw [HandChange.heldBlocks_setup]; rfl⟩
    · simp only [if_neg hclass] at h ⊢
      obtain rfl := Option.some.inj h
      exact ⟨_, rfl, EffectBody.triggered_setup _ _ _ _ _⟩
  case modifyBlind change =>
    obtain rfl := Option.some.inj h
    exact ⟨_, rfl, EffectBody.triggered_setup _ _ _ _ _⟩
  all_goals cases h

variable {setting : Setting} {trigger : Trigger} {s : Storage} {effect : Effect}
  {body : EffectBody}

/-- The code of a change is the code around its amount. -/
theorem Writes.around (h : effect.Writes setting trigger s body) {q : Quantity}
    (hq : effect.kind.quantity? = some q) :
    ∃ request, effect.slotRequest? trigger = some request ∧
      effect.around trigger.triggerClass (effect.bound setting request s q) = some body := by
  cases h with
  | @handChange params b hkind hclass hb =>
      rw [hkind] at hq
      obtain rfl := Option.some.inj hq
      refine ⟨handsRequest, ?_, ?_⟩
      · cases hc : trigger.triggerClass with
        | passive => exact absurd hc hclass
        | scoring | immediate =>
            rw [slotRequest?, hkind, hc]
            rfl
      · rw [Effect.around, hkind, ← hb]
        exact if_neg hclass
  | @blindChange params b hkind hclass hb =>
      rw [hkind] at hq
      obtain rfl := Option.some.inj hq
      refine ⟨blindRequest, ?_, ?_⟩
      · rw [slotRequest?, hkind]
        rfl
      · rw [Effect.around, hkind, ← hb]
        rfl
  | @heldHandChange params c hkind hclass hop hslot hr =>
      rw [hkind] at hq
      obtain rfl := Option.some.inj hq
      have hquantity : c.quantity = effect.bound setting heldRequest s params.value := by
        rw [HeldChange.quantity, hslot, hr, bound]
      refine ⟨heldRequest, ?_, ?_⟩
      · rw [slotRequest?, hkind, hclass]
        rfl
      · rw [Effect.around, hkind, ← hquantity, c.blocks_eq, hop]
        exact if_pos hclass
  | creation hkind | creationAtOnce hkind | removal hkind | removalAtOnce hkind | discount hkind
  | rerollGrant hkind | suitPair hkind =>
      rw [hkind] at hq
      cases hq

/-! ### Drawn once -/

/-- The amount of the effect is a range. -/
def HasRange (s : Storage) (effect : Effect) : Prop :=
  ∃ q min max, effect.kind.quantity? = some q ∧ q.StandsFor s (.draw min max)

/-- **The amount of an effect is drawn once**: with one call if it is a range, and with none
otherwise. The call stands first, and what follows is the code around the local variable that it
is drawn into. Nothing at all is drawn when a joker is lost. -/
structure DrawnOnce (setting : Setting) (trigger : Trigger) (s : Storage) (effect : Effect)
    (body : EffectBody) : Prop where
  range : effect.HasRange s → body.randomCalls.length = 1
  other : ¬ effect.HasRange s → body.randomCalls = []
  first : effect.HasRange s → ∃ request slot rest,
    effect.slotRequest? trigger = some request ∧ slot = request.slot s ∧
    effect.around trigger.triggerClass { slot, setup := [], value := .path (drawnName slot) } =
      some rest ∧
    rest.randomCalls = [] ∧
    body = rest.prepend
      [.letLocal (drawnName slot) (drawSlot setting.naming slot effect.id.text)]
  loss : ∀ gain loss, body.blocks = .whileHeld gain loss → blockDraws loss = []

/-- Only a range is drawn from. -/
theorem standsFor_draw_iff {q : Quantity} {min max : Number} :
    q.StandsFor s (.draw min max) ↔ Source.ofQuantity q = .range min max := by
  rw [standsFor_iff]
  cases hsource : Source.ofQuantity q with
  | range a b => simp [Source.meaning?]
  | gameVar v => simp [Source.meaning?_gameVar]
  | named name => simp [Source.meaning?_named]
  | number | unresolved => simp [Source.meaning?]

/-- A range is drawn into a local variable. -/
theorem bound_of_range {request : SlotRequest} {q : Quantity} {min max : Number}
    (h : Source.ofQuantity q = .range min max) :
    effect.bound setting request s q =
      { slot := request.slot s
        setup := [.letLocal (drawnName (request.slot s))
          (drawSlot setting.naming (request.slot s) effect.id.text)]
        value := .path (drawnName (request.slot s)) } := by
  rw [bound, settled, h]
  rfl

theorem draw?_of_quantity? {q : Quantity} (hq : effect.kind.quantity? = some q) :
    effect.draw? trigger s = effect.numberDraw? trigger s q := by
  rw [draw?]
  cases hkind : effect.kind <;> rw [hkind] at hq
  case editHand | modifyBlind =>
    obtain rfl := Option.some.inj hq
    rfl
  all_goals cases hq

/-- No number is drawn for an amount that is no range. -/
theorem isNumber_of_draw? (h : ¬ effect.HasRange s) {d : Draw} (hd : d ∈ effect.draw? trigger s) :
    d.isNumber = false := by
  cases hq : effect.kind.quantity? with
  | none =>
      rw [draw?] at hd
      cases hkind : effect.kind <;> rw [hkind] at hq hd
      case destroyConsumable =>
        obtain rfl := Option.some.inj hd
        rfl
      case editHand | modifyBlind => cases hq
      all_goals cases hd
  | some q =>
      rw [draw?_of_quantity? hq] at hd
      obtain ⟨request, -, hd⟩ := Option.bind_eq_some_iff.mp hd
      cases hsource : Source.ofQuantity q with
      | range min max => exact absurd ⟨q, min, max, hq, standsFor_draw_iff.mpr hsource⟩ h
      | gameVar | named | number | unresolved =>
          rw [hsource] at hd
          cases hd

/-- When the joker is lost, nothing is drawn. -/
theorem Writes.draws_loss (h : effect.Writes setting trigger s body) {gain loss : Block}
    (hblocks : body.blocks = .whileHeld gain loss) : blockDraws loss = [] := by
  cases h with
  | @heldHandChange params c hkind hclass hop hslot hr =>
      change c.blocks = _ at hblocks
      rw [HeldChange.blocks] at hblocks
      cases hc : c.operation <;> rw [hc] at hblocks <;>
        obtain ⟨-, rfl⟩ := EffectBlocks.whileHeld.inj hblocks <;>
        simp [Expr.minus, Expr.plus, Expr.or]
  | discount =>
      obtain ⟨-, rfl⟩ := EffectBlocks.whileHeld.inj hblocks
      exact draws_refreshCosts
  | rerollGrant =>
      obtain ⟨-, rfl⟩ := EffectBlocks.whileHeld.inj hblocks
      exact RerollGrant.draws_change _
  | suitPair =>
      obtain ⟨-, rfl⟩ := EffectBlocks.whileHeld.inj hblocks
      rfl
  | creation | creationAtOnce | removal | removalAtOnce => cases hblocks
  | handChange | blindChange =>
      cases hclass : trigger.triggerClass <;>
        rw [hclass] at hblocks <;> cases hblocks

/-- The draw of an effect whose amount is a range is that of the number. -/
theorem draw?_of_range {request : SlotRequest} {q : Quantity} {min max : Number}
    (hq : effect.kind.quantity? = some q) (hrequest : effect.slotRequest? trigger = some request)
    (h : Source.ofQuantity q = .range min max) :
    effect.draw? trigger s = some (.number (request.slot s) effect.id.text) := by
  rw [draw?_of_quantity? hq, numberDraw?, hrequest, Option.bind_some, h]
  rfl

/-- **The code of an effect draws its amount once**, whatever the effect is. -/
theorem Writes.drawnOnce (h : effect.Writes setting trigger s body) :
    effect.DrawnOnce setting trigger s body := by
  have hdraws := h.draws
  refine ⟨fun hrange => ?_, fun hother => ?_, fun hrange => ?_, fun _ _ => h.draws_loss⟩
  · obtain ⟨q, min, max, hq, hstands⟩ := hrange
    obtain ⟨request, hrequest, -⟩ := h.around hq
    rw [draw?_of_range hq hrequest (standsFor_draw_iff.mp hstands)] at hdraws
    rw [EffectBody.randomCalls, hdraws]
    rfl
  · rw [EffectBody.randomCalls, hdraws]
    cases hd : effect.draw? trigger s with
    | none => rfl
    | some d =>
        cases d with
        | number slot owner => cases isNumber_of_draw? hother hd
        | consumable owner => rfl
  · obtain ⟨q, min, max, hq, hstands⟩ := hrange
    obtain ⟨request, hrequest, haround⟩ := h.around hq
    obtain ⟨rest, hrest, hbody⟩ := around_eq_prepend haround
    have hrange := standsFor_draw_iff.mp hstands
    rw [bound_of_range hrange] at hrest hbody
    refine ⟨request, _, rest, hrequest, rfl, hrest, ?_, hbody⟩
    -- The only draw of the effect is the one in front, so that none is left for the rest.
    rw [draw?_of_range hq hrequest hrange, hbody, EffectBody.draws_prepend] at hdraws
    have hnone : rest.draws = [] := (List.cons.inj hdraws).2
    rw [EffectBody.randomCalls, hnone, randomOf_nil]

end Effect

end JokerScript
