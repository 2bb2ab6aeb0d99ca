import JokerScript.Proofs.Triggered.Compiled

/-!
# The Message of a Triggered Change

The usual message tells the amount of a change. Outside scoring it is shown before the change,
and tells the amount that the change then uses. Inside scoring it is the message of the return
table, which is evaluated after the change. A change of the blind cannot be seen there, but a
change of the hands left can: an amount that is read from them **drifts**, and the message then
tells another number than the one that was used.

## Main definitions

* `EffectBody.Announces` — the text that the player gets to see.
* `HandChange.drift` — by how much the announced number is off.

## Main results

* `exec_compile_announces` — what compiled changes announce.
* `exists_announces_eight` — eight hands are announced, and four were added.
-/

namespace JokerScript

open Lua

variable {W : Type} {host : Host W} {screen : Screen W} {shown : ExactNumber → String}
  {format : ExactNumber → Value} {s u : State W}

/-! ### Announcements -/

/-- The effect **announces** a text when its code has run from `s` to `u`: it is the status text
that the run has shown, or else the message of the return table, evaluated right after the
run. -/
def EffectBody.Announces (host : Host W) (screen : Screen W) (body : EffectBody) (s u : State W)
    (text : String) : Prop :=
  match body.blocks with
  | .callback _ => screen.texts u.world = screen.texts s.world ++ [.str text]
  | .beforeReturn _ => screen.texts u.world = screen.texts s.world ∧
      ∃ message, body.message = some message ∧ message.eval host u = some (.str text, u)
  | .whileHeld _ _ => False

/-- Only one text is announced. -/
theorem EffectBody.Announces.unique {body : EffectBody} {text text' : String}
    (h : body.Announces host screen s u text) (h' : body.Announces host screen s u text') :
    text = text' := by
  obtain ⟨blocks, message, colour, hook⟩ := body
  cases blocks with
  | callback block =>
      have htexts : [Value.str text] = [Value.str text'] :=
        List.append_cancel_left (Eq.trans (Eq.symm h) h')
      simpa using htexts
  | beforeReturn block =>
      obtain ⟨-, e, he, heval⟩ := h
      obtain ⟨-, e', he', heval'⟩ := h'
      obtain rfl := Option.some.inj (he.symm.trans he')
      simpa using heval.symm.trans heval'
  | whileHeld gain loss => exact h.elim

theorem EffectBody.announces_triggered {triggerClass : TriggerClass}
    (hclass : triggerClass ≠ .passive) {setup change : Block} {message : Expr} {colour : Colour}
    {text : String} {n : ℕ}
    (hadds : screen.Adds s u (if triggerClass = .immediate then [.str text] else []) n)
    (hmessage : triggerClass = .scoring → message.eval host u = some (.str text, u)) :
    (triggered triggerClass setup message colour change).Announces host screen s u text := by
  cases triggerClass with
  | scoring => exact ⟨hadds.texts.trans (List.append_nil _), message, rfl, hmessage rfl⟩
  | immediate => exact hadds.texts
  | passive => exact absurd rfl hclass

/-! ### Drift -/

/-- The **drift** of the amount `v` of a change of the hands `x`: the number that is announced is
so much more than the one that the change uses. -/
def HandChange.drift (params : HandChange) (x : HandCounts) (v : ℚ) : TriggerClass → ℚ
  | .scoring => (Source.ofQuantity params.value).handsFactor *
      ((x.after params.duration params.operation v).left - x.left)
  | .immediate | .passive => 0

/-- There is no drift outside scoring, or if the amount is not read from the hands left, or if
these stay the same. -/
theorem HandChange.drift_eq_zero {params : HandChange} {x : HandCounts} {v : ℚ}
    {triggerClass : TriggerClass} (hclass : triggerClass ≠ .passive) :
    params.drift x v triggerClass = 0 ↔
      triggerClass = .immediate ∨ (Source.ofQuantity params.value).handsFactor = 0 ∨
        (x.after params.duration params.operation v).left = x.left := by
  cases triggerClass with
  | scoring => simp [drift, sub_eq_zero]
  | immediate => simp [drift]
  | passive => exact absurd rfl hclass

/-! ### Compiled changes -/

section Compiled

variable {setting : Setting} {effect : Effect} {st : Storage} {triggerClass : TriggerClass} {v : ℚ}
  {w : State W} (laws : TriggerLaws host screen shown format) (hclass : triggerClass ≠ .passive)
  (hready : Ready s) (husual : effect.customMessage = none)

include laws hclass hready husual

theorem announces_handChange {params : HandChange} {tables : HandTables} {x : HandCounts}
    (hshow : tables.Show s x)
    (hv : (effect.settled setting Effect.handsRequest st params.value).expr.eval host s =
      some (.number (.finite v), w)) :
    let body := params.triggered triggerClass effect
      (effect.bound setting Effect.handsRequest st params.value)
    ∃ u, body.exec host s = some (.next, u) ∧
      tables.Show u (x.after params.duration params.operation v) ∧
      body.Announces host screen s u (HandChange.text params.operation
        (shown (.finite (v + params.drift x v triggerClass)))) := by
  obtain ⟨added, u, hexec, hu, hadds, hvalue⟩ := exec_handChange laws hclass hready hshow hv
  rw [Effect.textOr_of_none husual] at hadds
  have heval := eval_messageOr effect
    (HandChange.eval_message laws hu.toRuns hvalue params.operation)
  rw [Effect.textOr_of_none husual] at heval
  refine ⟨u, hexec, hu.shows hshow, ?_⟩
  -- Inside scoring the message is evaluated in the last state, so that the drift shows.
  cases triggerClass with
  | scoring => exact EffectBody.announces_triggered hclass hadds fun _ => heval
  | immediate =>
      rw [HandChange.drift, add_zero]
      exact EffectBody.announces_triggered hclass hadds nofun
  | passive => exact absurd rfl hclass

theorem announces_blindChange {params : BlindChange} {table : BlindTable} {c : ℚ}
    (hshow : table.Show s c)
    (hv : (effect.settled setting Effect.blindRequest st params.value).expr.eval host s =
      some (.number (.finite v), w)) (hdivide : params.operation = .divide → v ≠ 0) :
    let body := params.triggered triggerClass effect
      (effect.bound setting Effect.blindRequest st params.value)
    ∃ u, body.exec host s = some (.next, u) ∧ table.Show u (params.operation.after v c) ∧
      body.Announces host screen s u (BlindChange.text params.operation (shown (.finite v))) := by
  obtain ⟨added, u, hexec, hu, -, hadds, hvalue⟩ :=
    exec_blindChange laws hclass hready hshow hv hdivide
  have heval := eval_messageOr effect
    (BlindChange.eval_message laws hu.toRuns hvalue params.operation)
  rw [Effect.textOr_of_none husual] at hadds heval
  exact ⟨u, hexec, hu.shows hshow, EffectBody.announces_triggered hclass hadds fun _ => heval⟩

end Compiled

/-- **A compiled change of a counter** uses the value `v` that its amount has at the start of the
run. The usual message of a change of the blind announces `v`. That of a change of the number of
hands announces it up to the drift. -/
theorem exec_compile_announces (setting : Setting) {trigger : Trigger} (effect : Effect)
    {st : Storage} (hst : st.Reachable) (hclass : trigger.triggerClass ≠ .passive)
    (husual : effect.customMessage = none) :
    (∀ params, effect.kind = .editHand params →
      ∃ code final, (effect.compile setting trigger).run st = (.ok code, final) ∧
        ∀ {W : Type} {host : Host W} {screen : Screen W} {shown : ExactNumber → String}
          {format : ExactNumber → Value} {s w : State W} {tables : HandTables} {x : HandCounts}
          {v : ℚ}, TriggerLaws host screen shown format → Ready s → tables.Show s x →
          (effect.settled setting Effect.handsRequest st params.value).expr.eval host s =
            some (.number (.finite v), w) →
          ∃ u, code.body.exec host s = some (.next, u) ∧
            tables.Show u (x.after params.duration params.operation v) ∧
            code.body.Announces host screen s u (HandChange.text params.operation
              (shown (.finite (v + params.drift x v trigger.triggerClass)))) ∧
            (params.drift x v trigger.triggerClass = 0 ↔ trigger.triggerClass = .immediate ∨
              (Source.ofQuantity params.value).handsFactor = 0 ∨
              (x.after params.duration params.operation v).left = x.left)) ∧
    ∀ params, effect.kind = .modifyBlind params →
      ∃ code final, (effect.compile setting trigger).run st = (.ok code, final) ∧
        ∀ {W : Type} {host : Host W} {screen : Screen W} {shown : ExactNumber → String}
          {format : ExactNumber → Value} {s w : State W} {table : BlindTable} {c v : ℚ},
          TriggerLaws host screen shown format → Ready s → table.Show s c →
          (effect.settled setting Effect.blindRequest st params.value).expr.eval host s =
            some (.number (.finite v), w) → (params.operation = .divide → v ≠ 0) →
          ∃ u, code.body.exec host s = some (.next, u) ∧
            table.Show u (params.operation.after v c) ∧
            code.body.Announces host screen s u
              (BlindChange.text params.operation (shown (.finite v))) := by
  refine ⟨fun params hkind => ?_, fun params hkind => ?_⟩
  · obtain ⟨code, final, hrun, hbody⟩ := Effect.exists_compile_editHand setting hkind hclass hst
    refine ⟨code, final, hrun, ?_⟩
    intro W host screen shown format s w tables x v laws hready hshow hv
    obtain ⟨u, hexec, hu, hannounces⟩ := announces_handChange laws hclass hready husual hshow hv
    rw [hbody]
    exact ⟨u, hexec, hu, hannounces, HandChange.drift_eq_zero hclass⟩
  · obtain ⟨code, final, hrun, hbody⟩ := Effect.exists_compile_modifyBlind setting hkind hclass hst
    refine ⟨code, final, hrun, ?_⟩
    intro W host screen shown format s w table c v laws hready hshow hv hdivide
    rw [hbody]
    exact announces_blindChange laws hclass hready husual hshow hv hdivide

/-- Outside scoring, the four hands that are added are announced. Inside scoring, the four that
the blind is divided by are. -/
theorem exec_compile_announces_startOfRound :
    (∃ code final u, (moreHands.compile plainSetting .blindSelected).run {} = (.ok code, final) ∧
      code.body.exec smallGame startOfRound = some (.next, u) ∧ startHands.Show u ⟨8, 8⟩ ∧
      code.body.Announces smallGame Display.screen startOfRound u "+4 Hand") ∧
    ∃ code final u, (lessBlind.compile plainSetting .handPlayed).run {} = (.ok code, final) ∧
      code.body.exec smallGame startOfRound = some (.next, u) ∧ startBlind.Show u 75 ∧
      code.body.Announces smallGame Display.screen startOfRound u "/4 Blind Size" := by
  constructor
  · have hclass : Trigger.blindSelected.triggerClass ≠ .passive := by decide
    obtain ⟨hhands, -⟩ := exec_compile_announces plainSetting moreHands .empty hclass rfl
    obtain ⟨code, final, hrun, hexec⟩ := hhands _ rfl
    obtain ⟨u, hu, hshow, hannounces, hdrift⟩ := hexec smallGame_laws ready_startOfRound
      startHands_show (eval_handsLeftQuantity plainSetting moreHands _ _)
    have hafter : HandCounts.after .permanent .add 4 ⟨4, 4⟩ = ⟨8, 8⟩ := by
      norm_num [HandCounts.after]
    refine ⟨code, final, u, hrun, hu, hafter ▸ hshow, ?_⟩
    rw [hdrift.mpr (.inl rfl), add_zero] at hannounces
    exact hannounces
  · have hclass : Trigger.handPlayed.triggerClass ≠ .passive := by decide
    obtain ⟨-, hblind⟩ := exec_compile_announces plainSetting lessBlind .empty hclass rfl
    obtain ⟨code, final, hrun, hexec⟩ := hblind _ rfl
    obtain ⟨u, hu, hshow, hannounces⟩ := hexec smallGame_laws ready_startOfRound
      startBlind_show (eval_handsLeftQuantity plainSetting lessBlind _ _) fun _ => by norm_num
    have hafter : BlindOperation.after .divide 4 300 = 75 := by norm_num [BlindOperation.after]
    exact ⟨code, final, u, hrun, hu, hafter ▸ hshow, hannounces⟩

/-- Inside scoring, **four hands are added, and eight are announced**. -/
theorem exists_announces_eight :
    ∃ code final u, (moreHands.compile plainSetting .handPlayed).run {} = (.ok code, final) ∧
      code.body.exec smallGame startOfRound = some (.next, u) ∧
      startHands.Show startOfRound ⟨4, 4⟩ ∧ startHands.Show u ⟨4 + 4, 4 + 4⟩ ∧
      code.body.Announces smallGame Display.screen startOfRound u "+8 Hand" ∧
      ¬code.body.Announces smallGame Display.screen startOfRound u "+4 Hand" := by
  have hclass : Trigger.handPlayed.triggerClass ≠ .passive := by decide
  have hkind : moreHands.kind = .editHand { value := handsLeftQuantity } := rfl
  have husual : moreHands.customMessage = none := rfl
  have hfour : (moreHands.settled plainSetting Effect.handsRequest {}
      (HandChange.value { value := handsLeftQuantity })).expr.eval smallGame startOfRound =
        some (.number (.finite 4), startOfRound) :=
    eval_handsLeftQuantity plainSetting moreHands Effect.handsRequest {}
  obtain ⟨code, final, hrun, hbody⟩ :=
    Effect.exists_compile_editHand plainSetting hkind hclass .empty
  obtain ⟨u, hu, hshow, hannounces⟩ := announces_handChange smallGame_laws hclass
    ready_startOfRound husual startHands_show hfour
  rw [← hbody] at hu hannounces
  have hdrift : HandChange.drift { value := handsLeftQuantity } ⟨4, 4⟩ 4
      Trigger.handPlayed.triggerClass = 4 := by
    rw [Trigger.triggerClass, HandChange.drift, handsFactor_handsLeftQuantity]
    norm_num [HandCounts.after]
  have height : HandChange.text .add (shownWhole (.finite (4 + 4))) = "+8 Hand" := by
    decide +kernel
  rw [hdrift, height] at hannounces
  refine ⟨code, final, u, hrun, hu, startHands_show, hshow, hannounces, fun hfour => ?_⟩
  exact absurd (hannounces.unique hfour) (by decide)

end JokerScript
