import JokerScript.Proofs.Triggered.Compiled

/-!
# The Counters after a Triggered Change

Both classes of triggers change the counters of the game in the same way: the amount counts as
it was at the start of the run, even if it is read from a counter that the run changes. The run
changes nothing else.

## Main definitions

* `Spares` — what a run leaves alone.

## Main results

* `exec_compile_change` — the run of a compiled change.
-/

namespace JokerScript

open Lua

section Spares

variable {W : Type} {s u : State W} {added : List (String × Value)} {fields : List (ℕ × String)}

/-- The run from `s` to `u` changes the fields, and **spares** everything else. -/
structure Spares (fields : List (ℕ × String)) (s u : State W) : Prop where
  /-- Of the tables that were there only the fields change. New local variables hide nothing. -/
  changes : ∃ added, HidesNothing added ∧ s.ChangesOnly added fields u
  /-- All other counters of the game are read as before. -/
  read : ∀ p, pathRoot p ∈ triggerRoots → (∀ f ∈ fields, f.2 ∉ pathFields p) → u.read p = s.read p
  /-- The card keeps its variables. -/
  stored : ∀ a, s.read "card.ability.extra" = some (.table a) →
    u.read "card.ability.extra" = some (.table a) ∧
      ∀ name, (u.tables a).field name = (s.tables a).field name

theorem Runs.spares (h : Runs added fields s u)
    (hextra : ∀ a, s.read "card.ability.extra" = some (.table a) → ∀ f ∈ fields, f.1 ≠ a) :
    Spares fields s u where
  changes := ⟨added, h.hidden, h.changes⟩
  read _ hroot hfields := h.changes.read h.ready.sound (h.hidden _ hroot) hfields
  stored a ha := by
    refine ⟨(h.read (by decide)).trans ha, fun name => ?_⟩
    exact h.changes.field a (h.ready.sound.read ha) name fun hmem => hextra a ha _ hmem rfl

end Spares

/-- **A compiled change of a counter** comes to what it says, with the value `v` that the amount
has at the start of the run. -/
theorem exec_compile_change (setting : Setting) {trigger : Trigger} (effect : Effect) {st : Storage}
    (hst : st.Reachable) (hclass : trigger.triggerClass ≠ .passive) :
    (∀ params, effect.kind = .editHand params →
      ∃ code final, (effect.compile setting trigger).run st = (.ok code, final) ∧
        ∀ {W : Type} {host : Host W} {screen : Screen W} {shown : ExactNumber → String}
          {format : ExactNumber → Value} {s w : State W} {tables : HandTables} {x : HandCounts}
          {v : ℚ}, TriggerLaws host screen shown format → Ready s → tables.Show s x →
          (effect.settled setting Effect.handsRequest st params.value).expr.eval host s =
            some (.number (.finite v), w) →
          ∃ u, code.body.exec host s = some (.next, u) ∧
            tables.Show u (x.after params.duration params.operation v) ∧
            screen.recalculations u.world = screen.recalculations s.world ∧
            Spares tables.fields s u) ∧
    ∀ params, effect.kind = .modifyBlind params →
      ∃ code final, (effect.compile setting trigger).run st = (.ok code, final) ∧
        ∀ {W : Type} {host : Host W} {screen : Screen W} {shown : ExactNumber → String}
          {format : ExactNumber → Value} {s w : State W} {table : BlindTable} {c v : ℚ},
          TriggerLaws host screen shown format → Ready s → table.Show s c →
          (effect.settled setting Effect.blindRequest st params.value).expr.eval host s =
            some (.number (.finite v), w) → (params.operation = .divide → v ≠ 0) →
          ∃ u, code.body.exec host s = some (.next, u) ∧
            table.Show u (params.operation.after v c) ∧
            (u.tables table.blind).field "chip_text" =
              format (.finite (params.operation.after v c)) ∧
            screen.recalculations u.world = screen.recalculations s.world + 1 ∧
            Spares table.fields s u := by
  refine ⟨fun params hkind => ?_, fun params hkind => ?_⟩
  · obtain ⟨code, final, hrun, hbody⟩ := Effect.exists_compile_editHand setting hkind hclass hst
    refine ⟨code, final, hrun, ?_⟩
    intro W host screen shown format s w tables x v laws hready hshow hv
    obtain ⟨added, u, hexec, hu, hadds, -⟩ := exec_handChange laws hclass hready hshow hv
    rw [hbody]
    exact ⟨u, hexec, hu.shows hshow, hadds.recalculations, hu.toRuns.spares hshow.extra⟩
  · obtain ⟨code, final, hrun, hbody⟩ := Effect.exists_compile_modifyBlind setting hkind hclass hst
    refine ⟨code, final, hrun, ?_⟩
    intro W host screen shown format s w table c v laws hready hshow hv hdivide
    obtain ⟨added, u, hexec, hu, htext, hadds, -⟩ :=
      exec_blindChange laws hclass hready hshow hv hdivide
    rw [hbody]
    exact ⟨u, hexec, hu.shows hshow, htext, hadds.recalculations, hu.toRuns.spares hshow.extra⟩

/-- Four hands, of which four are left, become eight. A blind of three hundred chips, divided by
the four, asks for seventy-five. -/
theorem exec_compile_change_startOfRound :
    (∃ code final u, (moreHands.compile plainSetting .handPlayed).run {} = (.ok code, final) ∧
      code.body.exec smallGame startOfRound = some (.next, u) ∧ startHands.Show u ⟨8, 8⟩ ∧
      Spares startHands.fields startOfRound u) ∧
    ∃ code final u, (lessBlind.compile plainSetting .blindSelected).run {} = (.ok code, final) ∧
      code.body.exec smallGame startOfRound = some (.next, u) ∧ startBlind.Show u 75 ∧
      (u.tables startBlind.blind).field "chip_text" = .str "75" ∧
      Spares startBlind.fields startOfRound u := by
  constructor
  · have hclass : Trigger.handPlayed.triggerClass ≠ .passive := by decide
    obtain ⟨hhands, -⟩ := exec_compile_change plainSetting moreHands .empty hclass
    obtain ⟨code, final, hrun, hexec⟩ := hhands _ rfl
    obtain ⟨u, hu, hshow, -, hspares⟩ := hexec smallGame_laws ready_startOfRound startHands_show
      (eval_handsLeftQuantity plainSetting moreHands _ _)
    have hafter : HandCounts.after .permanent .add 4 ⟨4, 4⟩ = ⟨8, 8⟩ := by
      norm_num [HandCounts.after]
    exact ⟨code, final, u, hrun, hu, hafter ▸ hshow, hspares⟩
  · have hclass : Trigger.blindSelected.triggerClass ≠ .passive := by decide
    obtain ⟨-, hblind⟩ := exec_compile_change plainSetting lessBlind .empty hclass
    obtain ⟨code, final, hrun, hexec⟩ := hblind _ rfl
    obtain ⟨u, hu, hshow, htext, -, hspares⟩ := hexec smallGame_laws ready_startOfRound
      startBlind_show (eval_handsLeftQuantity plainSetting lessBlind _ _) fun _ => by norm_num
    have hafter : BlindOperation.after .divide 4 300 = 75 := by norm_num [BlindOperation.after]
    rw [hafter] at hshow htext
    exact ⟨code, final, u, hrun, hu, hshow, htext, hspares⟩

end JokerScript
