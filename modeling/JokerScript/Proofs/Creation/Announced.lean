import JokerScript.Proofs.Creation.Evaluation
import JokerScript.Proofs.Held.Compiled
import JokerScript.Proofs.Triggered.Compiled

/-!
# Announced Creations

Outside scoring a creation is announced by a status text, which stands behind the question whether
a joker is created. Inside scoring the return table announces it, by a message that is evaluated
after the block. The usual message asks the same question and is nothing without a creation. The
message of an author stands there without it, so that it is announced although nothing happens.

The status texts of a run are counted in the record that the game keeps of its calls.

## Main definitions

* `Lua.HostCall.showsText`, `shownTexts` — the status texts in a record.
* `EffectBody.AnnouncesAny` — something is announced.

## Main results

* `JokerCreation.announcesAny_iff_scheduled` — what is scheduled, and what is announced.
* `JokerCreation.exists_announcesAny_of_full` — an announcement without a creation.
-/

namespace JokerScript

open Lua

variable {W : Type} {host : Host W} {queue : EventQueue W} {IsCard : Value → Prop}
  {record : W → List HostCall} {s t u : State W} {x : JokerSlots} {params : JokerCreation}

/-! ### Status texts in a record -/

/-- Does the call show a status text? -/
def Lua.HostCall.showsText : HostCall → Bool
  | .function name _ => name == "card_eval_status_text"
  | .method .. => false

/-- How many status texts a record has. -/
def shownTexts (record : W → List HostCall) (w : W) : ℕ := (record w).countP HostCall.showsText

section Records

variable (records : host.Records record) {args : List Value} {v : Value}

include records

theorem shownTexts_statusText
    (h : host.call "card_eval_status_text" args s = some (v, t)) :
    shownTexts record t.world = shownTexts record s.world + 1 := by
  rw [shownTexts, records.function h, List.countP_append]
  rfl

theorem shownTexts_call {name : String} (hname : name ≠ "card_eval_status_text")
    (h : host.call name args s = some (v, t)) :
    shownTexts record t.world = shownTexts record s.world := by
  rw [shownTexts, records.function h, List.countP_append]
  simp [HostCall.showsText, hname, shownTexts]

theorem shownTexts_method {receiver : Value} {name : String}
    (h : host.method receiver name args s = some (v, t)) :
    shownTexts record t.world = shownTexts record s.world := by
  rw [shownTexts, records.method h, List.countP_append]
  rfl

/-! ### Attempts show nothing -/

/-- Whoever schedules an event shows nothing. -/
theorem shownTexts_scheduled {body : Block} {flow : Flow}
    (hname : s.locals.lookup "Event" = none)
    (h : (scheduled body).exec host s = some (flow, t)) :
    shownTexts record t.world = shownTexts record s.world := by
  let table : Table :=
    { field := Function.update (fun _ => .nil) "func" (.closure [] body s.locals) }
  have hrecord : (Expr.record [("func", .thunk body)]).eval host s = some (s.alloc table) := rfl
  have hevent : (Expr.apply "Event" [.record [("func", .thunk body)]]).eval host s =
      host.call "Event" [.table s.fresh] (s.alloc table).2 :=
    eval_apply_dotFree (by decide) hname (evalArgs_cons hrecord (evalArgs_nil _))
  simp only [scheduled, Stmt.exec, Expr.eval, evalArgs, bind, pure, Option.bind_eq_some_iff,
    Option.map_eq_some_iff, Prod.exists, Prod.mk.injEq, Option.some.injEq] at h
  obtain ⟨v, _, ⟨manager, _, ⟨_, -, rfl, rfl⟩, _, _, ⟨event, u, hcall, _, _, ⟨rfl, rfl⟩, rfl,
    rfl⟩, hadd⟩, -, rfl⟩ := h
  rw [hevent] at hcall
  rw [shownTexts_method records hadd, shownTexts_call records (by decide) hcall]
  rfl

/-- **An attempt shows nothing**, whether or not a joker is created. -/
theorem shownTexts_attempt (naming : Naming) (h : s.HasSlots x) (hlocals : CreationLocals s.locals)
    (hexec : execBlock host (params.attempt naming) s = some (.next, t)) :
    shownTexts record t.world = shownTexts record s.world := by
  have hhidden : ∀ {u : State W} {b : Bool},
      u.locals = (JokerCreation.created, .bool b) :: s.locals →
      u.locals.lookup "Event" = none ∧ u.locals.lookup "G" = none := by
    intro u b hu
    have hcons := hu ▸ hlocals.cons (by decide) (.bool b)
    exact ⟨hcons.hidden _ (by simp), hcons.hidden _ (by simp)⟩
  cases hskips : params.skipsSlotCheck with
  | true =>
      rw [JokerCreation.attempt, if_pos hskips, execBlock_cons_of_next
        (exec_letLocal (eval_bool true s)), execBlock_singleton] at hexec
      have hquiet := shownTexts_scheduled records (hhidden rfl).1 hexec
      exact hquiet
  | false =>
      have hroom :
          JokerCreation.hasRoom.eval host (s.push JokerCreation.created (.bool false)) = _ :=
        JokerCreation.eval_hasRoom (h.push _ _) (hhidden rfl).2
      rw [JokerCreation.attempt, if_neg (by simp [hskips]), execBlock_cons_of_next
        (exec_letLocal (eval_bool false s)), execBlock_singleton, exec_ifThen _ hroom] at hexec
      split at hexec
      · obtain ⟨u, hreserve, -, hu, hworld⟩ : ∃ u, execBlock host _ _ = _ ∧ _ :=
          JokerCreation.exec_reserveSlot h hlocals
        obtain ⟨⟨flow, v⟩, hbody, hclose⟩ := Option.map_eq_some_iff.mp hexec
        have hscheduled := ((execBlock_append_of_next hreserve).symm.trans hbody)
        rw [execBlock_singleton] at hscheduled
        obtain ⟨-, rfl⟩ := Prod.mk.inj hclose
        calc shownTexts record v.world = shownTexts record u.world :=
              shownTexts_scheduled records (hhidden hu).1 hscheduled
          _ = shownTexts record s.world := by rw [hworld]
      · obtain ⟨-, rfl⟩ := Prod.mk.inj (Option.some.inj hexec)
        rfl

/-! ### Status texts of creations -/

theorem shownTexts_messageOr (effect : Effect) {v : Value}
    (hname : s.locals.lookup "localize" = none)
    (h : (effect.messageOr JokerCreation.plusJoker).eval host s = some (v, t)) :
    shownTexts record t.world = shownTexts record s.world := by
  rw [Effect.messageOr] at h
  split at h
  · obtain ⟨-, rfl⟩ := Prod.mk.inj (Option.some.inj h)
    rfl
  · rw [JokerCreation.plusJoker, eval_apply_dotFree (by decide) hname
      (evalArgs_cons (eval_str ..) (evalArgs_nil s))] at h
    exact shownTexts_call records (by decide) h

/-- Outside scoring **a status text is shown just if there is a creation**. -/
theorem shownTexts_announce (laws : SlotLaws host queue IsCard) (effect : Effect) {fs : List Value}
    (hlocals : CreationLocals s.locals) (h : params.Attempted queue s t x fs)
    (hexec : execBlock host [.ifThen (.path JokerCreation.created)
      [statusText (effect.messageOr JokerCreation.plusJoker) .blue]] t = some (.next, u)) :
    shownTexts record u.world =
      shownTexts record t.world + if x.admits params then 1 else 0 := by
  rw [execBlock_singleton, exec_ifThen _ (eval_path h.read_created), Value.truthy_bool] at hexec
  split at hexec
  · rename_i hadmits
    have ht : CreationLocals t.locals := h.locals ▸ hlocals.cons (by decide) _
    obtain ⟨text, w, table, args, v, u', hmessage, hcall, htext, -⟩ :=
      JokerCreation.exists_call_statusText laws effect h.slots ht
    rw [execBlock_singleton, htext] at hexec
    obtain ⟨-, rfl⟩ := Prod.mk.inj (Option.some.inj hexec)
    have hquiet := shownTexts_messageOr records effect (ht.hidden _ (by simp)) hmessage
    rw [if_pos hadmits]
    exact (shownTexts_statusText records hcall).trans (congrArg (· + 1) hquiet)
  · rename_i hadmits
    obtain ⟨-, rfl⟩ := Prod.mk.inj (Option.some.inj hexec)
    rw [if_neg hadmits, Nat.add_zero]

end Records

/-! ### Announcements -/

/-- **Something is announced** by the code of an effect that has run from `s` to `u`: the run has
shown a status text, or else the message of the return table has a value right after the run. -/
def EffectBody.AnnouncesAny (host : Host W) (record : W → List HostCall) (body : EffectBody)
    (s u : State W) : Prop :=
  match body.blocks with
  | .callback _ => shownTexts record s.world < shownTexts record u.world
  | .beforeReturn _ => ∃ message v w,
      body.message = some message ∧ message.eval host u = some (v, w) ∧ v ≠ .nil
  | .whileHeld _ _ => False

namespace JokerCreation

/-- Inside scoring the usual message has a value just if there is a creation. -/
theorem exists_eval_usual (laws : SlotLaws host queue IsCard)
    (hlocalize : ∀ {key s v t}, host.call "localize" [.str key] s = some (v, t) → v.truthy = true)
    {fs : List Value} (hlocals : CreationLocals s.locals) (h : params.Attempted queue s t x fs) :
    ∃ v w, (((Expr.path created).and plusJoker).or .nil).eval host t = some (v, w) ∧
      (v ≠ .nil ↔ x.admits params = true) := by
  have hand : ((Expr.path created).and plusJoker).eval host t = _ :=
    eval_and (eval_path h.read_created)
  cases hadmits : x.admits params with
  | false =>
      rw [hadmits, Value.truthy_bool, if_neg (by simp)] at hand
      refine ⟨.nil, t, ?_, by simp⟩
      rw [eval_or hand, Value.truthy_bool, if_neg (by simp)]
      rfl
  | true =>
      have ht : CreationLocals t.locals := h.locals ▸ hlocals.cons (by decide) _
      obtain ⟨v, w, hcall, -⟩ := laws.localize h.slots "k_plus_joker"
      have htruthy := hlocalize hcall
      have hplus : plusJoker.eval host t = some (v, w) := by
        rw [plusJoker, eval_apply_dotFree (by decide) (ht.hidden _ (by decide))
          (evalArgs_cons (eval_str ..) (evalArgs_nil t))]
        exact hcall
      rw [hadmits, Value.truthy_bool, if_pos rfl, hplus] at hand
      refine ⟨v, w, ?_, iff_of_true ?_ rfl⟩
      · rw [eval_or hand, if_pos htruthy]
      · rintro rfl
        cases htruthy

/-- **What is scheduled, and what is announced.** The code of a creation announces something just
if it schedules the creation, except for the message of an author inside scoring: that one is
announced in any case. -/
theorem announcesAny_iff_scheduled (setting : Setting) {trigger : Trigger} (effect : Effect)
    {st : Storage} (hst : st.Reachable) (hkind : effect.kind = .createJoker params)
    (hclass : trigger.triggerClass ≠ .passive) :
    ∃ code final, (effect.compile setting trigger).run st = (.ok code, final) ∧
      ∀ {W : Type} {host : Host W} {queue : EventQueue W} {IsCard : Value → Prop}
        {record : W → List HostCall} {s : State W} {x : JokerSlots},
        SlotLaws host queue IsCard → host.Records record →
        (∀ {key s v t}, host.call "localize" [.str key] s = some (v, t) → v.truthy = true) →
        s.HasSlots x → CreationLocals s.locals →
        ∃ u fs, code.body.exec host s = some (.next, u) ∧
          queue.pending u.world = queue.pending s.world ++ fs ∧
          fs.length = (if x.admits params then 1 else 0) ∧ (∀ f ∈ fs, params.IsCreation f) ∧
          (code.body.AnnouncesAny host record s u ↔
            fs ≠ [] ∨ trigger.triggerClass = .scoring ∧ effect.customMessage.isSome) := by
  have hshape : effect.kind.hasShape trigger.triggerClass = true := by
    rw [hkind]
    exact bne_iff_ne.mpr hclass
  obtain ⟨code, final, hrun, -⟩ := Effect.run_compile_of_hasShape setting hshape hst
  refine ⟨code, final, hrun, ?_⟩
  intro W host queue IsCard record s x laws records hlocalize h hlocals
  obtain ⟨t, fs, hattempt, hattempted⟩ := params.exec_attempt laws setting.naming h hlocals
  have hquiet := shownTexts_attempt records setting.naming h hlocals hattempt
  have hwrites := Effect.writes_of_run_compile hst hrun
  generalize code.body = body at hwrites
  cases hwrites with
  | creation hkind' hscoring =>
      obtain rfl := EffectKind.createJoker.inj (hkind.symm.trans hkind')
      refine ⟨t, fs, hattempt, hattempted.pending, hattempted.length, hattempted.creations, ?_⟩
      obtain ⟨v, w, heval, hv⟩ := exists_eval_usual laws hlocalize hlocals hattempted
      cases hmessage : effect.customMessage with
      | none =>
          rw [hattempted.ne_nil_iff, ← hv]
          simp [EffectBody.AnnouncesAny, Effect.messageOr, hmessage, heval]
      | some text => simp [EffectBody.AnnouncesAny, Effect.messageOr, hmessage, hscoring, Expr.eval]
  | creationAtOnce hkind' himmediate =>
      obtain rfl := EffectKind.createJoker.inj (hkind.symm.trans hkind')
      obtain ⟨u, hannounce, hattempted'⟩ := exec_announce laws effect hlocals hattempted
      have hshown := shownTexts_announce records laws effect hlocals hattempted hannounce
      refine ⟨u, fs, (execBlock_append_of_next hattempt).trans hannounce, hattempted'.pending,
        hattempted'.length, hattempted'.creations, ?_⟩
      rw [hattempted.ne_nil_iff, himmediate]
      rw [hquiet] at hshown
      cases hadmits : x.admits params <;> simp [EffectBody.AnnouncesAny, hshown, hadmits]
  | removal hkind' | removalAtOnce hkind' | handChange hkind' | blindChange hkind'
  | heldHandChange hkind' | discount hkind' | rerollGrant hkind' | suitPair hkind' =>
      cases hkind.symm.trans hkind'

end JokerCreation

/-! ### A game that keeps a record -/

/-- What the game keeps beside its tables. -/
structure Bulletin where
  pending : List Value := []
  calls : List HostCall := []

namespace Bulletin

/-- Its queue of events. -/
def events : EventQueue Bulletin where
  pending := pending
  dropFirst w := { w with pending := w.pending.tail }
  pending_dropFirst _ := rfl

/-- The state after one more call. -/
def noted (call : HostCall) (s : State Bulletin) : State Bulletin :=
  { s with world := { s.world with calls := s.world.calls ++ [call] } }

/-- A game that keeps a queue of events and a record of its calls. -/
def game : Host Bulletin where
  call name args s :=
    let t := noted (.function name args) s
    match name, args with
    | "SMODS.add_card", _ =>
      match (s.withLocals []).read "G.jokers.cards" with
      | some (.table a) => some (.bool true, t.setItems a ((s.tables a).items ++ [.bool true]))
      | _ => none
    | "Event", [.table a] => some (.table a, t)
    | "localize", _ => some (.str "+1 Joker", t)
    | "card_eval_status_text", _ => some (.nil, t)
    | _, _ => none
  method receiver name args s :=
    let t := noted (.method receiver name args) s
    match name, args with
    | "add_event", [.table e] =>
      let pending := t.world.pending ++ [(s.tables e).field "func"]
      some (.nil, { t with world := { t.world with pending } })
    | "set_edition", _ | "add_sticker", _ => some (.nil, t)
    | _, _ => none

theorem leaves_noted (call : HostCall) {s : State Bulletin} {x : JokerSlots} (h : s.HasSlots x) :
    events.Leaves s (noted call s) x [] :=
  ⟨h.congr rfl rfl rfl, rfl, (List.append_nil _).symm⟩

/-- The game keeps to its slots. -/
theorem game_slotLaws : SlotLaws game events fun _ => True where
  addCard {s x} h spec := by
    obtain ⟨area, h⟩ := h
    have hread := (h.withLocals []).read_cards rfl
    have hslots := h.addItem (.bool true)
    have hcall : game.call "SMODS.add_card" [.table spec] s =
        some (.bool true, (noted (.function "SMODS.add_card" [.table spec]) s).setItems area.cards
          ((s.tables area.cards).items ++ [.bool true])) := by
      simp [game, hread]
    exact ⟨_, _, hcall, fun _ => trivial, State.HasSlots.congr ⟨area, hslots⟩ rfl rfl rfl, rfl,
      (List.append_nil _).symm⟩
  setEdition h _ _ := ⟨.nil, _, _, rfl, leaves_noted _ h, fun _ => rfl⟩
  addSticker h _ _ := ⟨.nil, _, rfl, leaves_noted _ h⟩
  event {s a _} h := ⟨a, _, rfl, s.grows_withWorld _, h, rfl⟩
  addEvent {s x area e f} h hevent :=
    ⟨.nil, _, rfl, ⟨State.HasSlots.congr ⟨area, h⟩ rfl rfl rfl, rfl, by rw [← hevent]; rfl⟩⟩
  localize h _ := ⟨_, _, rfl, leaves_noted _ h⟩
  statusText h _ := ⟨.nil, _, rfl, leaves_noted _ h⟩

theorem game_records : game.Records calls where
  function {name args s v t} h := by
    simp only [game] at h
    split at h
    · split at h <;> cases h
      rfl
    all_goals cases h <;> rfl
  method {receiver name args s v t} h := by
    simp only [game] at h
    split at h <;> cases h <;> rfl

theorem truthy_of_localize {key : String} {s t : State Bulletin} {v : Value}
    (h : game.call "localize" [.str key] s = some (v, t)) : v.truthy = true := by
  obtain ⟨rfl, -⟩ := Prod.mk.inj (Option.some.inj h)
  rfl

/-- A state without jokers, in the run of a callback. -/
def jokerless (limit : ℕ) : State Bulletin where
  locals := callbackLocals
  globals := (JokerScript.jokerless limit).globals
  tables := (JokerScript.jokerless limit).tables
  fresh := (JokerScript.jokerless limit).fresh
  world := {}

theorem jokerless_hasSlots (limit : ℕ) : (jokerless limit).HasSlots ⟨0, 0, limit⟩ := by
  obtain ⟨area, h⟩ := JokerScript.jokerless_hasSlots limit
  exact ⟨area, h.root, h.jokers, h.cards, h.count, h.config, h.limit, h.game, h.reserved,
    h.colours, h.manager, h.old⟩

end Bulletin

namespace JokerCreation

/-- A creation that an author announces. -/
def herald : Effect := { id := ⟨"create"⟩, kind := .createJoker {}, customMessage := some "Hello!" }

/-- Outside scoring, nothing is announced where no slot is free, and something where one is. -/
theorem announcesAny_iff_scheduled_herald :
    ∃ code final, (herald.compile plainSetting .roundEnd).run {} = (.ok code, final) ∧
      (∃ u, code.body.exec Bulletin.game (Bulletin.jokerless 0) = some (.next, u) ∧
        u.world.pending = [] ∧
        ¬ code.body.AnnouncesAny Bulletin.game Bulletin.calls (Bulletin.jokerless 0) u) ∧
      ∃ u, code.body.exec Bulletin.game (Bulletin.jokerless 1) = some (.next, u) ∧
        u.world.pending.length = 1 ∧
        code.body.AnnouncesAny Bulletin.game Bulletin.calls (Bulletin.jokerless 1) u := by
  have hclass : Trigger.roundEnd.triggerClass ≠ .passive := by decide
  obtain ⟨code, final, hrun, hexec⟩ :=
    announcesAny_iff_scheduled plainSetting herald .empty rfl hclass
  have hscoring : ¬ Trigger.roundEnd.triggerClass = .scoring := by decide
  have hturn (limit : ℕ) := hexec Bulletin.game_slotLaws Bulletin.game_records
    Bulletin.truthy_of_localize (Bulletin.jokerless_hasSlots limit) callbackLocals_creationLocals
  refine ⟨code, final, hrun, ?_, ?_⟩
  · obtain ⟨u, fs, hu, hpending, hlength, -, hannounces⟩ := hturn 0
    obtain rfl : fs = [] := List.eq_nil_of_length_eq_zero hlength
    refine ⟨u, hu, hpending, ?_⟩
    rw [hannounces]
    simp [hscoring]
  · obtain ⟨u, fs, hu, hpending, hlength, -, hannounces⟩ := hturn 1
    have hone : fs.length = 1 := hlength
    refine ⟨u, hu, ?_, hannounces.mpr (.inl ?_)⟩
    · exact (congrArg List.length hpending).trans hone
    · rintro rfl
      cases hone

/-- Inside scoring, **a creation is announced, and there is none**, since no slot is free. -/
theorem exists_announcesAny_of_full :
    ∃ code final u, (herald.compile plainSetting .handPlayed).run {} = (.ok code, final) ∧
      code.body.exec Bulletin.game (Bulletin.jokerless 0) = some (.next, u) ∧
      (Bulletin.jokerless 0).HasSlots ⟨0, 0, 0⟩ ∧ u.world.pending = [] ∧
      code.body.AnnouncesAny Bulletin.game Bulletin.calls (Bulletin.jokerless 0) u := by
  have hwrites : ∃ code final, (herald.compile plainSetting .handPlayed).run {} =
      (.ok code, final) ∧ code.body =
        { blocks := .beforeReturn (attempt {} {}), message := some (.str "Hello!")
          colour := some .blue } := ⟨_, _, rfl, rfl⟩
  obtain ⟨code, final, hrun, hbody⟩ := hwrites
  have hslots := Bulletin.jokerless_hasSlots 0
  obtain ⟨u, fs, hattempt, hattempted⟩ :=
    exec_attempt Bulletin.game_slotLaws {} {} hslots callbackLocals_creationLocals
  obtain rfl : fs = [] := List.eq_nil_of_length_eq_zero hattempted.length
  refine ⟨code, final, u, hrun, ?_, hslots, hattempted.pending, ?_⟩
  · rw [hbody]
    exact hattempt
  · rw [hbody]
    exact ⟨_, .str "Hello!", u, rfl, rfl, nofun⟩

end JokerCreation

end JokerScript
