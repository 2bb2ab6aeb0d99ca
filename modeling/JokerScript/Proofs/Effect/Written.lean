import JokerScript.Proofs.Effect.Outcome

/-!
# Code of Effects, Written Out

The code of an effect is made inside the computation that claims its slot and resolves its
quantity. Once the storage is known in which this happens, the code is a term: the blocks of
its kind for the class of its trigger, around the settled quantity. What is to be shown of all
effects is shown of the cases of `Effect.Writes`, and needs no look at the computation.

## Main definitions

* `Effect.settled`, `Effect.bound` — the quantity of an effect, when its slot was claimed.
* `Effect.Writes` — the code of an effect, case by case.

## Main results

* `Effect.writes_of_run_compile` — the code that is made is the code that is written out.
-/

namespace JokerScript

open Lua

namespace Effect

/-- The settled quantity of an effect, when the storage serves its request. -/
def settled (setting : Setting) (effect : Effect) (request : SlotRequest) (s : Storage)
    (q : Quantity) : Resolved :=
  (Source.ofQuantity q).settled setting.naming (.declared (request.slot s) effect.id.text)
    (s.claim request.base request.suffixes).2 (request.slot s)

/-- The quantity of an effect, ready for use. -/
def bound (setting : Setting) (effect : Effect) (request : SlotRequest) (s : Storage)
    (q : Quantity) : BoundQuantity :=
  .ofResolved (request.slot s) (effect.settled setting request s q)

/-- A change of the number of hands at a trigger. -/
def handsRequest : SlotRequest := ⟨"hands", valueSuffixes⟩

/-- A change of the blind. -/
def blindRequest : SlotRequest := ⟨"blind_size", valueSuffixes⟩

/-- A change of the number of hands while the joker is held. -/
def heldRequest : SlotRequest := ⟨"hand_change", HandChange.passiveSuffixes⟩

variable (setting : Setting) (trigger : Trigger) (effect : Effect) (s : Storage)

/-- **The code of an effect** that is compiled in the storage `s`. -/
inductive Writes : EffectBody → Prop
  | creation {params : JokerCreation} (hkind : effect.kind = .createJoker params)
      (hclass : trigger.triggerClass = .scoring) :
      Writes
        { blocks := .beforeReturn (params.attempt setting.naming)
          message := some (effect.messageOr
            (((Expr.path JokerCreation.created).and JokerCreation.plusJoker).or .nil))
          colour := some .blue }
  | creationAtOnce {params : JokerCreation} (hkind : effect.kind = .createJoker params)
      (hclass : trigger.triggerClass = .immediate) :
      Writes
        { blocks := .callback (params.attempt setting.naming ++
            [.ifThen (.path JokerCreation.created)
              [statusText (effect.messageOr JokerCreation.plusJoker) .blue]])
          colour := some .blue }
  | removal {params : ConsumableRemoval} (hkind : effect.kind = .destroyConsumable params)
      (hclass : trigger.triggerClass = .scoring) :
      Writes { blocks := .beforeReturn (params.block setting.naming effect), colour := some .red }
  | removalAtOnce {params : ConsumableRemoval} (hkind : effect.kind = .destroyConsumable params)
      (hclass : trigger.triggerClass = .immediate) :
      Writes { blocks := .callback (params.block setting.naming effect), colour := some .red }
  | handChange {params : HandChange} {q : BoundQuantity} (hkind : effect.kind = .editHand params)
      (hclass : trigger.triggerClass ≠ .passive)
      (hq : q = effect.bound setting handsRequest s params.value) :
      Writes (.triggered trigger.triggerClass q.setup
        (effect.messageOr (HandChange.message params.operation q.value))
        (HandChange.colour params.operation)
        (HandChange.change params.duration params.operation q.value))
  | blindChange {params : BlindChange} {q : BoundQuantity}
      (hkind : effect.kind = .modifyBlind params) (hclass : trigger.triggerClass ≠ .passive)
      (hq : q = effect.bound setting blindRequest s params.value) :
      Writes (.triggered trigger.triggerClass q.setup
        (effect.messageOr
          (amountMessage (BlindChange.messageLead params.operation) q.value " Blind Size"))
        .green (BlindChange.change params.operation q.value))
  | heldHandChange {params : HandChange} {c : HeldChange} (hkind : effect.kind = .editHand params)
      (hclass : trigger.triggerClass = .passive) (hop : c.operation = params.operation)
      (hslot : c.slot = heldRequest.slot s)
      (hr : c.resolved = effect.settled setting heldRequest s params.value) :
      Writes { blocks := c.blocks }
  | discount {params : Discount} (hkind : effect.kind = .discountItems params)
      (hclass : trigger.triggerClass = .passive) :
      Writes
        { blocks := .whileHeld refreshCosts refreshCosts
          hook := some (.ofChange setting.joker.key (.discount params)) }
  | rerollGrant {params : RerollGrant} (hkind : effect.kind = .freeRerolls params)
      (hclass : trigger.triggerClass = .passive) :
      Writes
        { blocks := .whileHeld (RerollGrant.change params.amount)
            (RerollGrant.change params.amount.opposite) }
  | suitPair {params : SuitPair} (hkind : effect.kind = .combineSuits params)
      (hclass : trigger.triggerClass = .passive) :
      Writes
        { blocks := .whileHeld [] []
          hook := some (.ofChange setting.joker.key (.suitPair params)) }

variable {setting trigger effect s} {t : Storage}

theorem writes_of_run_editHand {params : HandChange} {body : EffectBody} (hs : s.Reachable)
    (hkind : effect.kind = .editHand params)
    (hrun : (params.code setting trigger.triggerClass effect).run s = (.ok body, t)) :
    effect.Writes setting trigger s body := by
  by_cases hclass : trigger.triggerClass = .passive
  · obtain ⟨c, hop, hslot, hr, hheld⟩ := run_passiveCode setting effect params hs
    rw [HandChange.code, if_pos hclass, hheld] at hrun
    obtain rfl := Except.ok.inj (Prod.mk.inj hrun).1
    exact .heldHandChange hkind hclass hop hslot (by rw [hr, hslot]; rfl)
  · obtain ⟨r, hbind, rfl⟩ := run_bindQuantity setting "hands" valueSuffixes
      (List.Subset.refl _) params.value effect.id hs
    rw [HandChange.code, if_neg hclass, Resolver.run_bind_of_ok _ hbind] at hrun
    obtain rfl := Except.ok.inj (Prod.mk.inj hrun).1
    exact .handChange hkind hclass rfl

theorem writes_of_run_modifyBlind {params : BlindChange} {body : EffectBody} (hs : s.Reachable)
    (hkind : effect.kind = .modifyBlind params)
    (hrun : (params.code setting trigger.triggerClass effect).run s = (.ok body, t)) :
    effect.Writes setting trigger s body := by
  by_cases hclass : trigger.triggerClass = .passive
  · rw [BlindChange.code, if_pos hclass] at hrun
    cases hrun
  · obtain ⟨r, hbind, rfl⟩ := run_bindQuantity setting "blind_size" valueSuffixes
      (List.Subset.refl _) params.value effect.id hs
    rw [BlindChange.code, if_neg hclass, Resolver.run_bind_of_ok _ hbind] at hrun
    obtain rfl := Except.ok.inj (Prod.mk.inj hrun).1
    exact .blindChange hkind hclass rfl

theorem writes_of_run_code {body : EffectBody} (hs : s.Reachable)
    (hrun : (effect.kind.code setting trigger.triggerClass effect).run s = (.ok body, t)) :
    effect.Writes setting trigger s body := by
  cases hkind : effect.kind with
  | editHand params =>
      rw [hkind] at hrun
      exact writes_of_run_editHand hs hkind hrun
  | modifyBlind params =>
      rw [hkind] at hrun
      exact writes_of_run_modifyBlind hs hkind hrun
  -- The other kinds claim nothing, so their code is what the computation returns.
  | createJoker params =>
      cases hclass : trigger.triggerClass with
      | scoring =>
          rw [hkind, hclass] at hrun
          obtain rfl := Except.ok.inj (Prod.mk.inj hrun).1
          exact .creation hkind hclass
      | immediate =>
          rw [hkind, hclass] at hrun
          obtain rfl := Except.ok.inj (Prod.mk.inj hrun).1
          exact .creationAtOnce hkind hclass
      | passive =>
          rw [hkind, hclass] at hrun
          cases hrun
  | destroyConsumable params =>
      cases hclass : trigger.triggerClass with
      | scoring =>
          rw [hkind, hclass] at hrun
          obtain rfl := Except.ok.inj (Prod.mk.inj hrun).1
          exact .removal hkind hclass
      | immediate =>
          rw [hkind, hclass] at hrun
          obtain rfl := Except.ok.inj (Prod.mk.inj hrun).1
          exact .removalAtOnce hkind hclass
      | passive =>
          rw [hkind, hclass] at hrun
          cases hrun
  | discountItems params =>
      cases hclass : trigger.triggerClass with
      | passive =>
          rw [hkind, hclass] at hrun
          obtain rfl := Except.ok.inj (Prod.mk.inj hrun).1
          exact .discount hkind hclass
      | scoring | immediate =>
          rw [hkind, hclass] at hrun
          cases hrun
  | freeRerolls params =>
      cases hclass : trigger.triggerClass with
      | passive =>
          rw [hkind, hclass] at hrun
          obtain rfl := Except.ok.inj (Prod.mk.inj hrun).1
          exact .rerollGrant hkind hclass
      | scoring | immediate =>
          rw [hkind, hclass] at hrun
          cases hrun
  | combineSuits params =>
      cases hclass : trigger.triggerClass with
      | passive =>
          rw [hkind, hclass] at hrun
          obtain rfl := Except.ok.inj (Prod.mk.inj hrun).1
          exact .suitPair hkind hclass
      | scoring | immediate =>
          rw [hkind, hclass] at hrun
          cases hrun

/-- **The code that is made is the code that is written out.** -/
theorem writes_of_run_compile {code : EffectCode} (hs : s.Reachable)
    (hrun : (effect.compile setting trigger).run s = (.ok code, t)) :
    effect.Writes setting trigger s code.body := by
  have hget : ∀ s : Storage, (get : Resolver Storage).run s = (.ok s, s) := fun _ => rfl
  rw [compile, Resolver.run_bind_of_ok _ (hget s), Resolver.run_bind] at hrun
  split at hrun
  · rename_i body u hcode
    rw [Resolver.run_bind_of_ok _ (hget u)] at hrun
    obtain rfl := Except.ok.inj (Prod.mk.inj hrun).1
    exact writes_of_run_code hs hcode
  · cases hrun

/-- An effect of a kind that has a shape in the class is compiled, and its code is written out. -/
theorem exists_compile_writes (setting : Setting)
    (hshape : effect.kind.hasShape trigger.triggerClass = true) (hs : s.Reachable) :
    ∃ code t, (effect.compile setting trigger).run s = (.ok code, t) ∧
      effect.Writes setting trigger s code.body := by
  obtain ⟨code, t, hrun, -⟩ := run_compile_of_hasShape setting hshape hs
  exact ⟨code, t, hrun, writes_of_run_compile hs hrun⟩

/-- The code of a turn is written out in the storage before the turn. -/
theorem writes_of_mem_turns {effects : List Effect} (hs : s.Reachable)
    {turn : Turn Effect EffectCode}
    (h : turn ∈ turns (Effect.compile setting trigger) s effects) :
    turn.item.Writes setting trigger turn.before turn.code.body := by
  have hbefore := (mem_turns_between (orderly_compile setting trigger) hs h).1
  exact writes_of_run_compile hbefore (run_of_mem_turns h).2

end Effect

end JokerScript
