import JokerScript.Proofs.Effect.Written
import JokerScript.Proofs.Held.Compiled
import JokerScript.Proofs.Triggered.Changes

/-!
# Compiled Changes at a Trigger

Outside scoring the block of an effect shows the message, and then makes the change. Inside
scoring the block makes the change, and the message is evaluated after it. So the two classes
evaluate the amount in different states.

## Main definitions

* `EffectBody.exec` — the run of the code of an effect.
* `HandChange.text`, `BlindChange.text` — the usual messages.

## Main results

* `Effect.exists_compile_editHand`, `Effect.exists_compile_modifyBlind` — the code of the changes.
* `exec_handChange`, `exec_blindChange` — the runs of the code.
-/

namespace JokerScript

open Lua

/-! ### Code -/

/-- The code of a change of the number of hands at a trigger. -/
def HandChange.triggered (params : HandChange) (triggerClass : TriggerClass) (effect : Effect)
    (q : BoundQuantity) : EffectBody :=
  .triggered triggerClass q.setup (effect.messageOr (message params.operation q.value))
    (colour params.operation) (change params.duration params.operation q.value)

/-- The usual message of a change of the blind. -/
def BlindChange.message (operation : BlindOperation) (v : Expr) : Expr :=
  amountMessage (messageLead operation) v " Blind Size"

/-- The code of a change of the blind at a trigger. -/
def BlindChange.triggered (params : BlindChange) (triggerClass : TriggerClass) (effect : Effect)
    (q : BoundQuantity) : EffectBody :=
  .triggered triggerClass q.setup (effect.messageOr (message params.operation q.value)) .green
    (change params.operation q.value)

namespace Effect

variable (setting : Setting) {trigger : Trigger} {effect : Effect} {st : Storage}

theorem exists_compile_editHand {params : HandChange} (hkind : effect.kind = .editHand params)
    (hclass : trigger.triggerClass ≠ .passive) (hst : st.Reachable) :
    ∃ code final, (effect.compile setting trigger).run st = (.ok code, final) ∧
      code.body = params.triggered trigger.triggerClass effect
        (effect.bound setting handsRequest st params.value) := by
  have hshape : effect.kind.hasShape trigger.triggerClass = true := by rw [hkind]; rfl
  obtain ⟨code, final, hrun, hwrites⟩ := exists_compile_writes setting hshape hst
  refine ⟨code, final, hrun, ?_⟩
  generalize code.body = body at hwrites
  cases hwrites with
  | handChange hkind' _ hq =>
      obtain rfl := EffectKind.editHand.inj (hkind.symm.trans hkind')
      rw [hq]
      rfl
  | heldHandChange _ hclass' => exact absurd hclass' hclass
  | creation hkind' | creationAtOnce hkind' | removal hkind' | removalAtOnce hkind'
  | blindChange hkind' | discount hkind' | rerollGrant hkind' | suitPair hkind' =>
      cases hkind.symm.trans hkind'

theorem exists_compile_modifyBlind {params : BlindChange}
    (hkind : effect.kind = .modifyBlind params) (hclass : trigger.triggerClass ≠ .passive)
    (hst : st.Reachable) :
    ∃ code final, (effect.compile setting trigger).run st = (.ok code, final) ∧
      code.body = params.triggered trigger.triggerClass effect
        (effect.bound setting blindRequest st params.value) := by
  have hshape : effect.kind.hasShape trigger.triggerClass = true := by
    rw [hkind]
    exact bne_iff_ne.mpr hclass
  obtain ⟨code, final, hrun, hwrites⟩ := exists_compile_writes setting hshape hst
  refine ⟨code, final, hrun, ?_⟩
  generalize code.body = body at hwrites
  cases hwrites with
  | blindChange hkind' _ hq =>
      obtain rfl := EffectKind.modifyBlind.inj (hkind.symm.trans hkind')
      rw [hq]
      rfl
  | creation hkind' | creationAtOnce hkind' | removal hkind' | removalAtOnce hkind'
  | handChange hkind' | heldHandChange hkind' | discount hkind' | rerollGrant hkind'
  | suitPair hkind' => cases hkind.symm.trans hkind'

end Effect

/-! ### Messages -/

/-- The usual message, when the amount is shown as a text. -/
def HandChange.text (operation : HandOperation) (shown : String) : String :=
  match operation with
  | .add => "+" ++ (shown ++ " Hand")
  | .subtract => "-" ++ (shown ++ " Hand")
  | .set => "Set to " ++ (shown ++ " Hands")

/-- The usual message, when the amount is shown as a text. -/
def BlindChange.text (operation : BlindOperation) (shown : String) : String :=
  messageLead operation ++ (shown ++ " Blind Size")

/-- The message of the author, or else the usual one. -/
def Effect.textOr (effect : Effect) (usual : String) : String := effect.customMessage.getD usual

theorem Effect.textOr_of_none {effect : Effect} (h : effect.customMessage = none) (usual : String) :
    effect.textOr usual = usual := by
  rw [textOr, h, Option.getD_none]

variable {W : Type} {host : Host W} {screen : Screen W} {shown : ExactNumber → String}
  {format : ExactNumber → Value} {s t u : State W} {added : List (String × Value)}
  {fields : List (ℕ × String)}

theorem eval_messageOr (effect : Effect) {usual : Expr} {text : String}
    (h : usual.eval host t = some (.str text, t)) :
    (effect.messageOr usual).eval host t = some (.str (effect.textOr text), t) := by
  rw [Effect.messageOr, Effect.textOr]
  cases effect.customMessage with
  | none => exact h
  | some custom => rfl

section Messages

variable (laws : TriggerLaws host screen shown format) (h : Runs added fields s t) {value : Expr}
  {n : ExactNumber} (hvalue : value.eval host t = some (.number n, t))

include laws h hvalue

theorem HandChange.eval_message (operation : HandOperation) :
    (message operation value).eval host t = some (.str (text operation (shown n)), t) := by
  cases operation <;> exact eval_amountMessage laws h hvalue _ _

theorem BlindChange.eval_message (operation : BlindOperation) :
    (message operation value).eval host t = some (.str (text operation (shown n)), t) :=
  eval_amountMessage laws h hvalue _ _

end Messages

/-! ### Runs -/

/-- The run of the code of an effect at a trigger. -/
def EffectBody.exec (host : Host W) (body : EffectBody) (s : State W) : Option (Flow × State W) :=
  match body.blocks with
  | .callback block | .beforeReturn block => execBlock host block s
  | .whileHeld _ _ => none

/-- **A change with a message.** The status text is shown before the change, if it is shown at
all. -/
theorem EffectBody.exec_triggered (laws : TriggerLaws host screen shown format)
    {triggerClass : TriggerClass} (hclass : triggerClass ≠ .passive) {setup change : Block}
    {message : Expr} {text : Value} (colour : Colour) {P Q : State W → Prop} {n : ℕ}
    (hsetup : execBlock host setup s = some (.next, t)) (hadds : screen.Adds s t [] 0)
    (hruns : Runs added fields s t) (hmessage : message.eval host t = some (text, t)) (hP : P t)
    (hgrows : ∀ {u}, P t → t.Grows u → P u)
    (hchange : ∀ {t}, P t → ∃ u, execBlock host change t = some (.next, u) ∧ Q u ∧
      screen.Adds t u [] n) :
    ∃ u, (triggered triggerClass setup message colour change).exec host s = some (.next, u) ∧ Q u ∧
      screen.Adds s u (if triggerClass = .immediate then [text] else []) n := by
  cases triggerClass with
  -- Nothing is shown yet: the message is left to the return table.
  | scoring =>
      obtain ⟨u, hrun, hQ, hadds'⟩ := hchange hP
      have hall := hadds.trans hadds'
      rw [Nat.zero_add] at hall
      refine ⟨u, ?_, hQ, hall⟩
      exact (execBlock_append_of_next hsetup).trans hrun
  | immediate =>
      obtain ⟨t', hstatus, htt', hadds₁⟩ := exec_statusText laws hruns hmessage colour
      obtain ⟨u, hrun, hQ, hadds₂⟩ := hchange (hgrows hP htt')
      have hall := hadds.trans (hadds₁.trans hadds₂)
      rw [Nat.zero_add, Nat.zero_add] at hall
      refine ⟨u, ?_, hQ, hall⟩
      have hbefore : execBlock host (setup ++ [statusText message colour]) s =
          some (.next, t') := by
        rw [execBlock_append_of_next hsetup, execBlock_cons_of_next hstatus]
        rfl
      exact (execBlock_append_of_next hbefore).trans hrun
  | passive => exact absurd rfl hclass

section Changes

variable {setting : Setting} {effect : Effect} {st : Storage} {triggerClass : TriggerClass} {v : ℚ}
  (laws : TriggerLaws host screen shown format) (hclass : triggerClass ≠ .passive)
  (hready : Ready s)

include laws hready

/-- The amount of an effect, after its setup. -/
theorem exists_prepared {request : SlotRequest} (hbase : DotFree request.base) {q : Quantity}
    (hv : (effect.settled setting request st q).expr.eval host s =
      some (.number (.finite v), u)) :
    ∃ added t, Prepared host screen (effect.bound setting request st q)
      (Source.ofQuantity q).handsFactor v added s t :=
  exec_setup laws hready (dotFree_claimedName hbase st request.suffixes)
    (fun _ hname => dotFree_of_isIdentifier (isIdentifier_of_named hname)) hv

include hclass

/-- **The run of a change of the number of hands**, with the value that the amount has after
it. -/
theorem exec_handChange {params : HandChange} {tables : HandTables} {x : HandCounts}
    (hshow : tables.Show s x)
    (hv : (effect.settled setting Effect.handsRequest st params.value).expr.eval host s =
      some (.number (.finite v), u)) :
    let q := effect.bound setting Effect.handsRequest st params.value
    let y := x.after params.duration params.operation v
    ∃ added u, (params.triggered triggerClass effect q).exec host s = some (.next, u) ∧
      HandRun tables added s u y ∧
      screen.Adds s u (if triggerClass = .immediate then
        [.str (effect.textOr (HandChange.text params.operation (shown (.finite v))))] else []) 0 ∧
      q.value.eval host u = some (.number (.finite
        (v + (Source.ofQuantity params.value).handsFactor * (y.left - x.left))), u) := by
  intro q y
  obtain ⟨added, t, hprepared⟩ := exists_prepared laws hready (by decide) hv
  have hruns : Runs added tables.fields s t :=
    { ready := hready
      hidden := hprepared.hidden
      names := by simp [HandTables.fields, changedFields]
      changes := hprepared.changes _ }
  have hbegin : HandRun tables added s t x := by
    have h := hprepared.changes []
    have hresets := hready.sound.read hshow.resets
    have hround := hready.sound.read hshow.round
    refine { toRuns := hruns, hands := ?_, left := ?_ }
    · rw [h.field _ hresets _ List.not_mem_nil, hshow.hands]
    · rw [h.field _ hround _ List.not_mem_nil, hshow.left]
  have hamount : q.value.eval host t = some (.number (.finite v), t) := by
    have heval := hbegin.eval_value hshow hprepared.follows
    rwa [sub_self, mul_zero, add_zero] at heval
  have hmessage := eval_messageOr effect
    (HandChange.eval_message laws hruns hamount params.operation)
  obtain ⟨u, hrun, hu, hadds⟩ := EffectBody.exec_triggered
    (P := fun t => HandRun tables added s t x) (Q := fun u => HandRun tables added s u y) laws
    hclass (HandChange.colour params.operation) hprepared.setup hprepared.adds hruns hmessage
    hbegin (fun h htu => h.growing hshow htu)
    fun h => h.exec_change hshow laws hprepared.follows rfl params.duration params.operation
  exact ⟨added, u, hrun, hu, hadds, hu.eval_value hshow hprepared.follows⟩

/-- **The run of a change of the blind.** The amount has the same value after it. -/
theorem exec_blindChange {params : BlindChange} {table : BlindTable} {c : ℚ}
    (hshow : table.Show s c)
    (hv : (effect.settled setting Effect.blindRequest st params.value).expr.eval host s =
      some (.number (.finite v), u)) (hdivide : params.operation = .divide → v ≠ 0) :
    let q := effect.bound setting Effect.blindRequest st params.value
    ∃ added u, (params.triggered triggerClass effect q).exec host s = some (.next, u) ∧
      BlindRun table added s u (params.operation.after v c) ∧
      (u.tables table.blind).field "chip_text" = format (.finite (params.operation.after v c)) ∧
      screen.Adds s u (if triggerClass = .immediate then
        [.str (effect.textOr (BlindChange.text params.operation (shown (.finite v))))] else []) 1 ∧
      q.value.eval host u = some (.number (.finite v), u) := by
  intro q
  obtain ⟨added, t, hprepared⟩ := exists_prepared laws hready (by decide) hv
  have hruns : Runs added table.fields s t :=
    { ready := hready
      hidden := hprepared.hidden
      names := by simp [BlindTable.fields, changedFields]
      changes := hprepared.changes _ }
  have hbegin : BlindRun table added s t c := by
    refine { toRuns := hruns, chips := ?_ }
    rw [(hprepared.changes []).field _ (hready.sound.read hshow.blind) _ List.not_mem_nil,
      hshow.chips]
  have hmessage := eval_messageOr effect (BlindChange.eval_message laws hruns
    (hbegin.eval_value hshow hprepared.follows) params.operation)
  have hchange : ∀ {t}, BlindRun table added s t c →
      ∃ u, execBlock host (BlindChange.change params.operation q.value) t = some (.next, u) ∧
        (BlindRun table added s u (params.operation.after v c) ∧
          (u.tables table.blind).field "chip_text" =
            format (.finite (params.operation.after v c))) ∧ screen.Adds t u [] 1 := by
    intro t h
    obtain ⟨u, hrun, hu, htext, hadds⟩ := h.exec_change hshow laws hprepared.follows hdivide
    exact ⟨u, hrun, ⟨hu, htext⟩, hadds⟩
  obtain ⟨u, hrun, ⟨hu, htext⟩, hadds⟩ := EffectBody.exec_triggered laws hclass .green
    hprepared.setup hprepared.adds hruns hmessage hbegin (fun h htu => h.growing hshow htu) hchange
  exact ⟨added, u, hrun, hu, htext, hadds, hu.eval_value hshow hprepared.follows⟩

end Changes

/-! ### The hands left as an amount -/

/-- The amount that is the number of hands left. -/
def handsLeftQuantity : Quantity := .text "GAMEVAR:remaining_hands"

theorem ofQuantity_handsLeftQuantity :
    Source.ofQuantity handsLeftQuantity = .gameVar ⟨"remaining_hands", .one, .zero false⟩ := by
  decide +kernel

theorem handsFactor_handsLeftQuantity : (Source.ofQuantity handsLeftQuantity).handsFactor = 1 := by
  have hone : Number.one.literalValue = .finite 1 := by decide +kernel
  rw [ofQuantity_handsLeftQuantity, Source.handsFactor, if_pos rfl, hone]

/-- At the start of a round it is four. -/
theorem eval_handsLeftQuantity (setting : Setting) (effect : Effect) (request : SlotRequest)
    (st : Storage) :
    (effect.settled setting request st handsLeftQuantity).expr.eval smallGame startOfRound =
      some (.number (.finite 4), startOfRound) := by
  have hexpr : (GameVar.mk "remaining_hands" .one (.zero false)).expr? =
      some (.path HandChange.handsLeft) := rfl
  simp only [Effect.settled, ofQuantity_handsLeftQuantity, Source.settled, hexpr]
  exact eval_path rfl

/-- As many hands more for each round as are left in this one. -/
def moreHands : Effect := { id := ⟨"more"⟩, kind := .editHand { value := handsLeftQuantity } }

/-- The blind, divided by the number of hands left. -/
def lessBlind : Effect :=
  { id := ⟨"less"⟩, kind := .modifyBlind { operation := .divide, value := handsLeftQuantity } }

end JokerScript
