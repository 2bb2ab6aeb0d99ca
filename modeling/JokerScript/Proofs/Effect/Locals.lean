import JokerScript.Proofs.Effect.Written
import JokerScript.Proofs.Lua.Locals
import JokerScript.Proofs.Resolve.Scoped

/-!
# Local Variables of Effects

Inside scoring, the block of an effect stands before the return table, and the table shows the
message of the effect. A message may read the local variables of its block: the number that was
drawn, or whether a joker is created. The variable of a drawn number is called after the slot of
its effect. All other local variables have fixed names.

## Main definitions

* `EffectBody.deferred` — the block before the return table.
* `EffectBody.messageRoots`, `EffectBody.messageLocals` — what the message reads.
* `EffectKind.fixedLocals`, `Effect.slotLocals` — the names that the block of an effect may bind.
* `Effect.isOverwrittenBy` — the effects whose blocks declare one and the same variable.

## Main results

* `Effect.Writes.locals` — what a block binds, and what a message reads.
* `Effect.Writes.mem_messageLocals` — the local variables of a message.
-/

namespace JokerScript

open Lua

/-! ### Blocks and messages -/

namespace EffectBody

/-- The block that is run before the return table. -/
def deferred (body : EffectBody) : Block :=
  match body.blocks with
  | .beforeReturn block => block
  | .callback _ | .whileHeld .. => []

/-- The variables that the message of the return table reads. -/
def messageRoots (body : EffectBody) : List String := body.message.toList.flatMap Expr.roots

/-- The local variables among them: all that are not of the game. -/
def messageLocals (body : EffectBody) : List String :=
  body.messageRoots.filter fun x => x ∉ runtimeGlobals

theorem mem_messageLocals {body : EffectBody} {x : String} :
    x ∈ body.messageLocals ↔ x ∈ body.messageRoots ∧ x ∉ runtimeGlobals := by
  simp [messageLocals]

end EffectBody

namespace EffectKind

/-- Does an effect of the kind create a joker? -/
def isCreation : EffectKind → Bool
  | createJoker _ => true
  | destroyConsumable _ | editHand _ | modifyBlind _ | discountItems _ | freeRerolls _
  | combineSuits _ => false

/-- The fixed names that the block of an effect of the kind binds. -/
def fixedLocals : EffectKind → List String
  | createJoker _ => [JokerCreation.created, "joker_card"]
  | destroyConsumable _ =>
    [ConsumableRemoval.targets, "_", "consumable", ConsumableRemoval.chosen]
  | editHand _ | modifyBlind _ | discountItems _ | freeRerolls _ | combineSuits _ => []

theorem created_mem_fixedLocals {kind : EffectKind} :
    JokerCreation.created ∈ kind.fixedLocals ↔ kind.isCreation = true := by
  cases kind with
  | createJoker params => exact iff_of_true List.mem_cons_self rfl
  | destroyConsumable params => exact iff_of_false (by rw [fixedLocals]; decide) nofun
  | editHand _ | modifyBlind _ | discountItems _ | freeRerolls _ | combineSuits _ =>
      exact iff_of_false List.not_mem_nil nofun

/-- The fixed names are no names of the game, and do not end as the names of drawn numbers do. -/
theorem fixedLocals_spec (kind : EffectKind) :
    ∀ x ∈ kind.fixedLocals, x ∉ runtimeGlobals ∧ ¬"_value".toList <:+ x.toList := by
  cases kind with
  | createJoker _ | destroyConsumable _ =>
      rw [fixedLocals]
      decide
  | editHand _ | modifyBlind _ | discountItems _ | freeRerolls _ | combineSuits _ =>
      exact List.forall_mem_nil _

end EffectKind

namespace Effect

/-- Does the message of the effect ask whether a joker is created? The message of an author asks
nothing. -/
def asksForCreation (effect : Effect) : Bool :=
  effect.kind.isCreation && effect.customMessage.isNone

/-- Does the message of the first effect ask whether a joker is created, although the block of the
second effect answers the same question under the same name? -/
def isOverwrittenBy (effect other : Effect) : Bool :=
  effect.asksForCreation && other.kind.isCreation

/-- The variable of the drawn number of an effect that is compiled in the storage `s`. -/
def slotLocals (trigger : Trigger) (s : Storage) (effect : Effect) : List String :=
  (effect.slotRequest? trigger).toList.map fun request => request.slot s ++ "_value"

theorem mem_slotLocals {trigger : Trigger} {s : Storage} {effect : Effect} {x : String} :
    x ∈ effect.slotLocals trigger s ↔
      ∃ request, effect.slotRequest? trigger = some request ∧ request.slot s ++ "_value" = x := by
  simp [slotLocals]

/-- The variable of a drawn number has none of the names that end in another way. -/
theorem notMem_of_mem_slotLocals {trigger : Trigger} {s : Storage} {effect : Effect} {x : String}
    {names : List String} (hnames : ∀ name ∈ names, ¬"_value".toList <:+ name.toList)
    (hx : x ∈ effect.slotLocals trigger s) : x ∉ names := by
  obtain ⟨request, -, rfl⟩ := mem_slotLocals.mp hx
  exact fun hmem => hnames _ hmem ⟨(request.slot s).toList, String.toList_append.symm⟩

/-- **The variables of two drawn numbers are different** if one effect is compiled after the
other. -/
theorem disjoint_slotLocals {setting : Setting} {trigger : Trigger} {effect other : Effect}
    {s t u v : Storage} {body body' : EffectBody} {vars vars' : List StoredVariable}
    (h : effect.Makes setting trigger s body vars t)
    (hother : other.Makes setting trigger u body' vars' v) (hlater : t.Extends u) :
    (effect.slotLocals trigger s).Disjoint (other.slotLocals trigger u) := by
  intro x hx hmem
  obtain ⟨request, hrequest, rfl⟩ := mem_slotLocals.mp hx
  obtain ⟨request', hrequest', hname⟩ := mem_slotLocals.mp hmem
  have hserves := h.serves
  have hserves' := hother.serves
  rw [hrequest] at hserves
  rw [hrequest'] at hserves'
  rw [String.append_left_inj] at hname
  refine hserves.disjoint_forms hserves' hlater (Storage.self_mem_forms _ _) ?_
  rw [← hname]
  exact Storage.self_mem_forms _ _

end Effect

/-! ### Quantities -/

/-- The expression of a quantity binds nothing. -/
theorem bindings_settled (naming : Naming) (request : ResolveRequest) (s : Storage)
    (rangeName : String) (source : Source) :
    (source.settled naming request s rangeName).expr.bindings = [] := by
  obtain ⟨n, hn⟩ | ⟨v, e, he, hv⟩ | ⟨min, max, seed, hr⟩ | ⟨name, -, hn⟩ :=
    settled_cases naming request s rangeName source
  · rw [hn]
    obtain ⟨name, owner, policy⟩ := request
    cases policy <;> rfl
  · rw [hv]
    obtain ⟨reading, -, rfl⟩ := GameVar.exists_reading he
    have hreading : reading.expr.bindings = [] := by cases reading <;> rfl
    have hscaled : (GameVar.scaled reading.expr v.multiplier).bindings = [] := by
      rw [GameVar.scaled]
      split <;> simp [Expr.times, hreading]
    simp only [Resolved.expr]
    rw [GameVar.shifted]
    split
    · exact hscaled
    · split <;> simp [Expr.minus, Expr.plus, hscaled]
  · rw [hr]
    rfl
  · rw [hn]
    rfl

/-- The expression of a quantity that is not drawn reads variables of the game only. -/
theorem usesAll_settled_of_isStable {naming : Naming} {request : ResolveRequest} {s : Storage}
    {rangeName : String} {source : Source}
    (h : (source.settled naming request s rangeName).isStable = true) :
    (source.settled naming request s rangeName).expr.UsesAll
      fun u => pathRoot u.path ∈ runtimeGlobals := by
  have hextra : ∀ name : String, pathRoot ("card.ability.extra." ++ name) ∈ runtimeGlobals := by
    intro name
    have hname : "card.ability.extra." ++ name = "card.ability.extra" ++ "." ++ name := rfl
    rw [hname, pathRoot_append]
    decide
  obtain ⟨n, hn⟩ | ⟨v, e, he, hv⟩ | ⟨min, max, seed, hr⟩ | ⟨name, -, hn⟩ :=
    settled_cases naming request s rangeName source
  · rw [hn]
    obtain ⟨name, owner, policy⟩ := request
    cases policy with
    | declared => exact (Expr.usesAll_extra name).mpr (hextra name)
    | inline => exact Expr.usesAll_number n
  · rw [hv]
    obtain ⟨reading, hmem, rfl⟩ := GameVar.exists_reading he
    have hreadings : ∀ p ∈ GameState.readings, ∀ u ∈ p.2.expr.uses,
        pathRoot u.path ∈ runtimeGlobals := by decide
    have hreading : reading.expr.UsesAll fun u => pathRoot u.path ∈ runtimeGlobals :=
      hreadings _ hmem
    exact GameVar.usesAll_shifted (GameVar.usesAll_scaled hreading v.multiplier) v.offset
  · rw [hr] at h
    cases h
  · rw [hn]
    exact (Expr.usesAll_extra name).mpr (hextra name)

section Bound

variable (setting : Setting) (effect : Effect) (request : SlotRequest) (s : Storage)
  (quantity : Quantity)

/-- The statements of a quantity bind the variable of a drawn number, and declare what they
bind. -/
theorem Effect.bindings_bound :
    blockBindings (effect.bound setting request s quantity).setup =
        blockDeclared (effect.bound setting request s quantity).setup ∧
      blockBindings (effect.bound setting request s quantity).setup ⊆
        [request.slot s ++ "_value"] ∧
      (effect.bound setting request s quantity).value.bindings = [] := by
  have hsettled : (effect.settled setting request s quantity).expr.bindings = [] :=
    bindings_settled ..
  rw [bound, BoundQuantity.ofResolved]
  split
  · exact ⟨rfl, List.nil_subset _, hsettled⟩
  · simp [hsettled, blockDeclared, Stmt.letLocal, Stmt.declared, Stmt.bindings]

/-- The value of a quantity reads what its statements declare, or variables of the game. -/
theorem Effect.roots_bound (hbase : request.base ∈ slotBases) :
    (effect.bound setting request s quantity).value.roots ⊆
      blockDeclared (effect.bound setting request s quantity).setup ++ runtimeGlobals := by
  have hdot : DotFree (request.slot s ++ "_value") :=
    dotFree_of_isIdentifier (isIdentifier_slot hbase s request.suffixes "_value" (by decide))
  rw [bound, BoundQuantity.ofResolved]
  split
  · rename_i hstable
    exact mem_roots_of_usesAll (usesAll_settled_of_isStable hstable)
  · intro x hx
    obtain rfl : x = request.slot s ++ "_value" := by
      simpa [Expr.roots, Expr.uses, pathRoot_of_dotFree hdot] using hx
    exact List.mem_cons_self

end Bound

/-! ### Pieces -/

@[simp] theorem bindings_scheduled (body : Block) :
    (scheduled body).bindings = blockBindings body := by
  simp [scheduled]

@[simp] theorem bindings_statusText (message : Expr) (colour : Colour) :
    (statusText message colour).bindings = message.bindings := by
  simp [statusText, Expr.or]

theorem bindings_messageOr {usual : Expr} (h : usual.bindings = []) (effect : Effect) :
    (effect.messageOr usual).bindings = [] := by
  rw [Effect.messageOr]
  split
  · rfl
  · exact h

theorem roots_messageOr {usual : Expr} {names : List String} (h : usual.roots ⊆ names)
    (effect : Effect) : (effect.messageOr usual).roots ⊆ names := by
  rw [Effect.messageOr]
  split
  · exact List.nil_subset _
  · exact h

theorem roots_amountMessage {value : Expr} {names : List String} (h : value.roots ⊆ names)
    (hglobals : runtimeGlobals ⊆ names) (before after : String) :
    (amountMessage before value after).roots ⊆ names := by
  have htostring : pathRoot "tostring" ∈ names := hglobals (by decide)
  have hvalue : value.UsesAll fun u => pathRoot u.path ∈ names := fun u hu =>
    h (List.mem_map_of_mem hu)
  refine mem_roots_of_usesAll (Expr.usesAll_concat ?_)
  simp [htostring, hvalue]

namespace HandChange

theorem blockBindings_change {v : Expr} (hv : v.bindings = []) (duration : Duration)
    (operation : HandOperation) : blockBindings (change duration operation v) = [] := by
  have hhands : targetBindings (.path roundHands) = [] := by decide
  have hleft : targetBindings (.path handsLeft) = [] := by decide
  cases duration <;> cases operation <;>
    simp [change, permanentChange, roundChange, hv, hhands, hleft, Expr.plus, Expr.minus,
      Expr.opposite]

theorem roots_message {v : Expr} {names : List String} (h : v.roots ⊆ names)
    (hglobals : runtimeGlobals ⊆ names) (operation : HandOperation) :
    (message operation v).roots ⊆ names := by
  cases operation <;> exact roots_amountMessage h hglobals _ _

end HandChange

theorem BlindChange.blockBindings_change {v : Expr} (hv : v.bindings = [])
    (operation : BlindOperation) : blockBindings (change operation v) = [] := by
  have hchips : targetBindings (.path blindChips) = [] := by decide
  have htext : targetBindings (.path "G.GAME.blind.chip_text") = [] := by decide
  cases operation <;>
    simp [change, newChips, hv, hchips, htext, Expr.plus, Expr.minus, Expr.times, Expr.dividedBy]

namespace JokerCreation

variable (naming : Naming) (params : JokerCreation)

theorem blockBindings_creation : blockBindings (params.creation naming) = ["joker_card"] := by
  have hspec : (cardSpec naming params.selection).bindings = [] := by
    cases params.selection <;> simp [cardSpec]
  have hdecoration : ∀ method name, blockBindings (decoration method name) = [] := by
    intro method name
    cases name <;> simp [decoration, newCard]
  have hbuffer : targetBindings (.path jokerBuffer) = [] := by decide
  rw [creation, decorations]
  split <;> split <;> simp [hspec, hdecoration, hbuffer, newCard]

theorem blockBindings_attempt :
    blockBindings (params.attempt naming) ⊆ [created, "joker_card"] := by
  have hbuffer : targetBindings (.path jokerBuffer) = [] := by decide
  have hcreated : targetBindings (.path created) = [created] := by decide
  rw [attempt]
  split
  · simp [blockBindings_creation]
  · simp [blockBindings_creation, hbuffer, hcreated, hasRoom, Expr.lt, Expr.plus, Expr.length]

theorem blockDeclared_attempt : blockDeclared (params.attempt naming) = [created] := by
  rw [attempt]
  split <;> rfl

end JokerCreation

theorem ConsumableRemoval.blockBindings_block (naming : Naming) (effect : Effect)
    (params : ConsumableRemoval) :
    blockBindings (params.block naming effect) ⊆ [targets, "_", "consumable", chosen] := by
  have hcollect : blockBindings (collect params.target) = [] := by
    rw [collect]
    rcases params.target with _ | ⟨set, _ | card⟩ <;>
      simp [filter?, Expr.equals, Expr.and]
  have hmessage : (effect.messageOr (.str "Destroyed Consumable!")).bindings = [] :=
    bindings_messageOr rfl effect
  simp [block, destroy, hcollect, hmessage, Expr.gt, Expr.length]

/-! ### Effects inside scoring -/

section Change

variable {setting : Setting} {effect : Effect} {request : SlotRequest} {s : Storage}
  {quantity : Quantity} {q : BoundQuantity} {message : Expr} {colour : Colour} {change : Block}

/-- A change by a quantity, inside scoring. -/
theorem EffectBody.locals_triggered (hq : q = effect.bound setting request s quantity)
    (hmessage : message.roots ⊆ blockDeclared q.setup ++ runtimeGlobals)
    (hchange : blockBindings change = []) :
    (triggered .scoring q.setup message colour change).messageRoots ⊆
        blockDeclared (triggered .scoring q.setup message colour change).deferred ++
          runtimeGlobals ∧
      blockBindings (triggered .scoring q.setup message colour change).deferred ⊆
        [request.slot s ++ "_value"] := by
  have hdeferred : (triggered .scoring q.setup message colour change).deferred =
      q.setup ++ change := rfl
  have hroots : (triggered .scoring q.setup message colour change).messageRoots =
      message.roots := List.flatMap_singleton Expr.roots message
  obtain ⟨-, hsetup, -⟩ := Effect.bindings_bound setting effect request s quantity
  rw [hdeferred, hroots, blockDeclared_append, blockBindings_append, hchange, List.append_nil]
  refine ⟨fun x hx => ?_, hq ▸ hsetup⟩
  rcases List.mem_append.mp (hmessage hx) with hx | hx
  · exact List.mem_append_left _ (List.mem_append_left _ hx)
  · exact List.mem_append_right _ hx

end Change

namespace Effect.Writes

variable {setting : Setting} {trigger : Trigger} {effect : Effect} {s : Storage}
  {body : EffectBody} (h : effect.Writes setting trigger s body)
  (hclass : trigger.triggerClass = .scoring)

include h hclass

/-- Inside scoring, every effect has a block before the return table. -/
theorem blocks_eq : body.blocks = .beforeReturn body.deferred := by
  cases h with
  | creation | removal => rfl
  | handChange | blindChange => rw [hclass, EffectBody.triggered]; rfl
  | creationAtOnce _ hother | removalAtOnce _ hother | heldHandChange _ hother
  | discount _ hother | rerollGrant _ hother | suitPair _ hother => cases hclass.symm.trans hother

/-- **What a block binds** has a fixed name, or is called after the slot of its effect; and **what
a message reads** is declared by its own block, or belongs to the game. -/
theorem locals :
    blockBindings body.deferred ⊆ effect.kind.fixedLocals ++ effect.slotLocals trigger s ∧
      body.messageRoots ⊆ blockDeclared body.deferred ++ runtimeGlobals := by
  cases h with
  | @creation params hkind =>
      rw [hkind]
      refine ⟨List.subset_append_of_subset_left _ (params.blockBindings_attempt setting.naming), ?_⟩
      have husual : (((Expr.path JokerCreation.created).and JokerCreation.plusJoker).or
          .nil).roots ⊆ [JokerCreation.created] ++ runtimeGlobals := by decide
      rw [EffectBody.messageRoots, Option.toList_some, List.flatMap_singleton, EffectBody.deferred,
        params.blockDeclared_attempt]
      exact roots_messageOr husual effect
  | removal hkind =>
      rw [hkind]
      exact ⟨List.subset_append_of_subset_left _ (ConsumableRemoval.blockBindings_block _ _ _),
        List.nil_subset _⟩
  | @handChange params q hkind _ hq =>
      have hslot : effect.kind.fixedLocals ++ effect.slotLocals trigger s =
          [handsRequest.slot s ++ "_value"] := by
        simp [EffectKind.fixedLocals, slotLocals, slotRequest?, hkind, hclass, handsRequest]
      have hvalue := roots_bound setting effect handsRequest s params.value (by decide)
      obtain ⟨-, -, hbindings⟩ := bindings_bound setting effect handsRequest s params.value
      rw [← hq] at hvalue hbindings
      rw [hclass, hslot]
      exact (EffectBody.locals_triggered hq
        (roots_messageOr (HandChange.roots_message hvalue (List.subset_append_right _ _) _) effect)
        (HandChange.blockBindings_change hbindings params.duration params.operation)).symm
  | @blindChange params q hkind _ hq =>
      have hslot : effect.kind.fixedLocals ++ effect.slotLocals trigger s =
          [blindRequest.slot s ++ "_value"] := by
        simp [EffectKind.fixedLocals, slotLocals, slotRequest?, hkind, blindRequest]
      have hvalue := roots_bound setting effect blindRequest s params.value (by decide)
      obtain ⟨-, -, hbindings⟩ := bindings_bound setting effect blindRequest s params.value
      rw [← hq] at hvalue hbindings
      rw [hclass, hslot]
      exact (EffectBody.locals_triggered hq
        (roots_messageOr (roots_amountMessage hvalue (List.subset_append_right _ _) _ _) effect)
        (BlindChange.blockBindings_change hbindings params.operation)).symm
  | creationAtOnce _ hother | removalAtOnce _ hother | heldHandChange _ hother
  | discount _ hother | rerollGrant _ hother | suitPair _ hother => cases hclass.symm.trans hother

/-- Inside scoring, a creation is attempted before the return table, and its usual message asks
for the outcome. -/
theorem exists_attempt (hcreation : effect.kind.isCreation = true) :
    ∃ params : JokerCreation, body.deferred = params.attempt setting.naming ∧
      body.message = some (effect.messageOr
        (((Expr.path JokerCreation.created).and JokerCreation.plusJoker).or .nil)) := by
  cases h with
  | @creation params hkind => exact ⟨params, rfl, rfl⟩
  | creationAtOnce _ hother => cases hclass.symm.trans hother
  | removal hkind | removalAtOnce hkind | handChange hkind | blindChange hkind
  | heldHandChange hkind | discount hkind | rerollGrant hkind | suitPair hkind =>
      rw [hkind] at hcreation
      cases hcreation

/-- The block of a creation declares the variable that tells whether a joker is created. -/
theorem created_mem_declared (hcreation : effect.kind.isCreation = true) :
    JokerCreation.created ∈ blockDeclared body.deferred := by
  obtain ⟨params, hdeferred, -⟩ := h.exists_attempt hclass hcreation
  rw [hdeferred, params.blockDeclared_attempt]
  exact List.mem_singleton_self _

/-- A message that asks whether a joker is created reads this variable. -/
theorem created_mem_messageLocals (hasks : effect.asksForCreation = true) :
    JokerCreation.created ∈ body.messageLocals := by
  obtain ⟨hcreation, hcustom⟩ := Bool.and_eq_true_iff.mp hasks
  obtain ⟨-, -, hmessage⟩ := h.exists_attempt hclass hcreation
  have husual : JokerCreation.created ∈ (((Expr.path JokerCreation.created).and
      JokerCreation.plusJoker).or .nil).roots := by decide
  rw [EffectBody.mem_messageLocals, EffectBody.messageRoots, hmessage, messageOr,
    Option.isNone_iff_eq_none.mp hcustom]
  exact ⟨List.mem_append_left _ husual, by decide⟩

/-- **The local variables of a message** are declared by the block of its effect. -/
theorem messageLocals_subset : body.messageLocals ⊆ blockDeclared body.deferred := by
  intro x hx
  obtain ⟨hroot, hglobal⟩ := EffectBody.mem_messageLocals.mp hx
  exact (List.mem_append.mp ((h.locals hclass).2 hroot)).resolve_right hglobal

/-- There are two of them: whether a joker is created, and the drawn number. -/
theorem mem_messageLocals {x : String} (hx : x ∈ body.messageLocals) :
    x = JokerCreation.created ∧ effect.asksForCreation = true ∨
      x ∈ effect.slotLocals trigger s := by
  have hdeclared := h.messageLocals_subset hclass hx
  have hroot := (EffectBody.mem_messageLocals.mp hx).1
  refine (List.mem_append.mp ((h.locals hclass).1 (blockDeclared_subset _ hdeclared))).imp_left
    fun hfixed => ?_
  cases h with
  | @creation params hkind =>
      rw [EffectBody.deferred, params.blockDeclared_attempt] at hdeclared
      refine ⟨List.mem_singleton.mp hdeclared, ?_⟩
      rw [asksForCreation, hkind]
      cases hmessage : effect.customMessage with
      | none => rfl
      | some text =>
          rw [EffectBody.messageRoots, messageOr, hmessage] at hroot
          cases hroot
  | removal => cases hroot
  | handChange hkind | blindChange hkind =>
      rw [hkind] at hfixed
      cases hfixed
  | creationAtOnce _ hother | removalAtOnce _ hother | heldHandChange _ hother
  | discount _ hother | rerollGrant _ hother | suitPair _ hother => cases hclass.symm.trans hother

/-- A message binds nothing. -/
theorem bindings_message : ∀ e ∈ body.message, e.bindings = [] := by
  have hamount : ∀ {value : Expr}, value.bindings = [] → ∀ before after,
      (amountMessage before value after).bindings = [] := by
    intro value hvalue before after
    simp [amountMessage, hvalue]
  cases h with
  | creation => exact fun e he => Option.some.inj he ▸ bindings_messageOr rfl effect
  | removal => exact nofun
  | @handChange params q hkind _ hq =>
      obtain ⟨-, -, hvalue⟩ := bindings_bound setting effect handsRequest s params.value
      rw [← hq] at hvalue
      rw [hclass]
      refine fun e he => Option.some.inj he ▸ bindings_messageOr ?_ effect
      cases params.operation <;> exact hamount hvalue _ _
  | @blindChange params q hkind _ hq =>
      obtain ⟨-, -, hvalue⟩ := bindings_bound setting effect blindRequest s params.value
      rw [← hq] at hvalue
      rw [hclass]
      exact fun e he => Option.some.inj he ▸ bindings_messageOr (hamount hvalue _ _) effect
  | creationAtOnce _ hother | removalAtOnce _ hother | heldHandChange _ hother
  | discount _ hother | rerollGrant _ hother | suitPair _ hother => cases hclass.symm.trans hother

/-- No block binds a name of the game. -/
theorem disjoint_runtimeGlobals : runtimeGlobals.Disjoint (blockBindings body.deferred) := by
  have hends : ∀ name ∈ runtimeGlobals, ¬"_value".toList <:+ name.toList := by decide
  intro x hx hmem
  rcases List.mem_append.mp ((h.locals hclass).1 hmem) with hfixed | hslot
  · exact (effect.kind.fixedLocals_spec x hfixed).1 hx
  · exact notMem_of_mem_slotLocals hends hslot hx

/-- **A block of another effect binds nothing that a message reads**, unless both answer whether a
joker is created. -/
theorem disjoint_messageRoots {other : Effect} {s' : Storage} {body' : EffectBody}
    (hother : other.Writes setting trigger s' body')
    (hslots : (effect.slotLocals trigger s).Disjoint (other.slotLocals trigger s'))
    (hnot : effect.isOverwrittenBy other = false) :
    body.messageRoots.Disjoint (blockBindings body'.deferred) := by
  intro x hroot hmem
  have hglobal : x ∉ runtimeGlobals := fun hx => hother.disjoint_runtimeGlobals hclass hx hmem
  have hbound := List.mem_append.mp ((hother.locals hclass).1 hmem)
  rcases h.mem_messageLocals hclass (EffectBody.mem_messageLocals.mpr ⟨hroot, hglobal⟩) with
    ⟨rfl, hasks⟩ | hslot
  · rcases hbound with hfixed | hslot'
    · rw [isOverwrittenBy, hasks, EffectKind.created_mem_fixedLocals.mp hfixed] at hnot
      cases hnot
    · exact notMem_of_mem_slotLocals (by decide) hslot' (List.mem_singleton_self _)
  · rcases hbound with hfixed | hslot'
    · have hends := fun name hname => (other.kind.fixedLocals_spec name hname).2
      exact notMem_of_mem_slotLocals hends hslot hfixed
    · exact hslots hslot hslot'

end Effect.Writes

end JokerScript
