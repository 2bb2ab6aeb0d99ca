import JokerScript.Proofs.Triggered.Amounts

/-!
# Changes at a Trigger

The code of a trigger changes the number of hands, or the chips that the blind asks for. One law
for each says what the change comes to, when the amount follows the hands left: whatever the
amount is read from, each place where the code evaluates it gives the value that it had at first.

## Main definitions

* `HandCounts`, `HandCounts.after` — the numbers of hands, and a change of them.
* `HandTables`, `HandRun` — where the numbers stand, and what they are while the code runs.
* `BlindTable`, `BlindRun` — the same for the blind.

## Main results

* `HandRun.exec_change`, `BlindRun.exec_change` — the runs of the changes.
-/

namespace JokerScript

open Lua

variable {W : Type} {host : Host W} {screen : Screen W} {shown : ExactNumber → String}
  {format : ExactNumber → Value} {s t u : State W} {added : List (String × Value)}

/-! ### Hands -/

/-- The **numbers of hands**. -/
structure HandCounts where
  /-- The hands of each round. -/
  hands : ℚ
  /-- The hands left in this round. -/
  left : ℚ

namespace HandCounts

/-- The numbers of hands after a change by the amount `v`, or to it. -/
def after (duration : Duration) (operation : HandOperation) (v : ℚ) (x : HandCounts) : HandCounts :=
  match duration, operation with
  | .permanent, .add => ⟨x.hands + v, x.left + v⟩
  | .permanent, .subtract => ⟨x.hands - v, x.left - v⟩
  | .permanent, .set => ⟨v, v⟩
  | .round, .add => ⟨x.hands, x.left + v⟩
  | .round, .subtract => ⟨x.hands, x.left - v⟩
  | .round, .set => ⟨x.hands, v⟩

end HandCounts

/-- The tables that the numbers of hands stand in. -/
structure HandTables where
  resets : ℕ
  round : ℕ

namespace HandTables

/-- The fields of the numbers. -/
def fields (tables : HandTables) : List (ℕ × String) :=
  [(tables.resets, "hands"), (tables.round, "hands_left")]

/-- The state **shows** the numbers of hands in the tables, and the card does not keep its
variables there. -/
structure Show (tables : HandTables) (s : State W) (x : HandCounts) : Prop where
  resets : s.read "G.GAME.round_resets" = some (.table tables.resets)
  round : s.read "G.GAME.current_round" = some (.table tables.round)
  hands : (s.tables tables.resets).field "hands" = .number (.finite x.hands)
  left : (s.tables tables.round).field "hands_left" = .number (.finite x.left)
  extra : ∀ a, s.read "card.ability.extra" = some (.table a) → ∀ f ∈ tables.fields, f.1 ≠ a

end HandTables

/-- The numbers of hands are `x` in the state `t`, which comes up while the code runs from `s`. -/
structure HandRun (tables : HandTables) (added : List (String × Value)) (s t : State W)
    (x : HandCounts) : Prop extends Runs added tables.fields s t where
  hands : (t.tables tables.resets).field "hands" = .number (.finite x.hands)
  left : (t.tables tables.round).field "hands_left" = .number (.finite x.left)

namespace HandRun

variable {tables : HandTables} {x y : HandCounts} {value : Expr} {factor v : ℚ}
  (hshow : tables.Show s x) (h : HandRun tables added s t y)

include hshow h

theorem resets : t.read "G.GAME.round_resets" = some (.table tables.resets) :=
  (h.read (by decide)).trans hshow.resets

theorem round : t.read "G.GAME.current_round" = some (.table tables.round) :=
  (h.read (by decide)).trans hshow.round

theorem read_hands : t.read HandChange.roundHands = some (.number (.finite y.hands)) := by
  have hchild : t.read ("G.GAME.round_resets" ++ "." ++ "hands") = _ :=
    State.read_child (by decide) (h.resets hshow)
  rw [h.hands] at hchild
  exact hchild

theorem read_left : t.read HandChange.handsLeft = some (.number (.finite y.left)) := by
  have hchild : t.read ("G.GAME.current_round" ++ "." ++ "hands_left") = _ :=
    State.read_child (by decide) (h.round hshow)
  rw [h.left] at hchild
  exact hchild

/-- The state shows the numbers. -/
theorem shows : tables.Show t y where
  resets := h.resets hshow
  round := h.round hshow
  hands := h.hands
  left := h.left
  extra := by
    rw [h.read (by decide)]
    exact hshow.extra

theorem growing (htu : t.Grows u) : HandRun tables added s u y := by
  have hresets : tables.resets < t.fresh :=
    (h.ready.sound.read hshow.resets).trans_le h.changes.fresh
  have hround : tables.round < t.fresh :=
    (h.ready.sound.read hshow.round).trans_le h.changes.fresh
  refine { toRuns := h.grows htu, hands := ?_, left := ?_ }
  · rw [htu.tables _ hresets, h.hands]
  · rw [htu.tables _ hround, h.left]

theorem write_hands (n : ℚ) :
    t.write HandChange.roundHands (.number (.finite n)) =
        some (t.setField tables.resets "hands" (.number (.finite n))) ∧
      HandRun tables added s (t.setField tables.resets "hands" (.number (.finite n)))
        { y with hands := n } := by
  have hwrite : t.write ("G.GAME.round_resets" ++ "." ++ "hands") (.number (.finite n)) = _ :=
    State.write_child _ (by decide) (h.resets hshow)
  refine ⟨hwrite, { toRuns := h.setField List.mem_cons_self _, hands := ?_, left := ?_ }⟩
  · rw [State.field_setField, if_pos ⟨rfl, rfl⟩]
  · rw [State.field_setField, if_neg (by simp), h.left]

omit hshow in
theorem setLeft (n : ℚ) :
    HandRun tables added s (t.setField tables.round "hands_left" (.number (.finite n)))
      { y with left := n } := by
  have hmem : (tables.round, "hands_left") ∈ tables.fields :=
    List.mem_cons_of_mem _ List.mem_cons_self
  refine { toRuns := h.setField hmem _, hands := ?_, left := ?_ }
  · rw [State.field_setField, if_neg (by simp), h.hands]
  · rw [State.field_setField, if_pos ⟨rfl, rfl⟩]

theorem write_left (n : ℚ) :
    t.write HandChange.handsLeft (.number (.finite n)) =
      some (t.setField tables.round "hands_left" (.number (.finite n))) := by
  have hwrite : t.write ("G.GAME.current_round" ++ "." ++ "hands_left") (.number (.finite n)) = _ :=
    State.write_child _ (by decide) (h.round hshow)
  exact hwrite

/-- The amount, when the hands left have changed. -/
theorem eval_value (hvalue : Follows host added s value factor v) :
    value.eval host t = some (.number (.finite (v + factor * (y.left - x.left))), t) := by
  refine hvalue h.toRuns hshow.extra fun n hn => ?_
  have hchild : s.read ("G.GAME.current_round" ++ "." ++ "hands_left") = _ :=
    State.read_child (by decide) hshow.round
  rw [hshow.left] at hchild
  obtain rfl : n = .finite x.left := by
    simpa using hn.symm.trans hchild
  rw [h.read_left hshow, ExactNumber.finite_add, add_sub_cancel]

/-- The game changes the hands left. -/
theorem exec_ease (laws : TriggerLaws host screen shown format) {e : Expr} {n : ℚ}
    (he : e.eval host t = some (.number (.finite n), t)) :
    ∃ u, (Stmt.call "ease_hands_played" [e]).exec host t = some (.next, u) ∧
      HandRun tables added s u { y with left := y.left + n } ∧ screen.Adds t u [] 0 := by
  obtain ⟨v, u, hcall, hgrows, hadds⟩ := laws.ease (h.round hshow) h.left (.finite n)
  rw [ExactNumber.finite_add] at hgrows
  have heval : (Expr.apply "ease_hands_played" [e]).eval host t = some (v, u) :=
    (h.eval_apply (by decide) (by decide) (evalArgs_cons he (evalArgs_nil t))).trans hcall
  exact ⟨u, exec_run heval, (h.setLeft (y.left + n)).growing hshow hgrows, hadds⟩

/-- The hands of each round change first. The amount does not see this, so that the hands left
change by the same amount. -/
theorem exec_permanentChange (laws : TriggerLaws host screen shown format)
    (hvalue : Follows host added s value factor v) (hleft : y.left = x.left)
    (operation : HandOperation) :
    ∃ u, execBlock host (HandChange.permanentChange operation value) t = some (.next, u) ∧
      HandRun tables added s u (y.after .permanent operation v) ∧ screen.Adds t u [] 0 := by
  have hamount : ∀ {u : State W} {z : HandCounts}, HandRun tables added s u z → z.left = x.left →
      value.eval host u = some (.number (.finite v), u) := by
    intro u z hu hz
    have heval := hu.eval_value hshow hvalue
    rwa [hz, sub_self, mul_zero, add_zero] at heval
  have hold : (Expr.path HandChange.roundHands).eval host t = _ := eval_path (h.read_hands hshow)
  -- The operations differ in the total that is written, and in what the game is told to add.
  obtain ⟨total, eased, hchange, htotal, heased⟩ : ∃ total eased : Expr,
      HandChange.permanentChange operation value =
        [.set HandChange.roundHands total, .call "ease_hands_played" [eased]] ∧
      total.eval host t = some (.number (.finite (y.after .permanent operation v).hands), t) ∧
      ∀ {u z}, HandRun tables added s u z → z.left = y.left → eased.eval host u =
        some (.number (.finite ((y.after .permanent operation v).left - y.left)), u) := by
    cases operation with
    | add =>
        refine ⟨_, _, rfl, eval_binary (by simp) hold (hamount h hleft) rfl, fun hu hz => ?_⟩
        rw [hamount hu (hz.trans hleft), HandCounts.after, add_sub_cancel_left]
    | subtract =>
        refine ⟨_, _, rfl, eval_binary (by simp) hold (hamount h hleft) ?_, fun hu hz => ?_⟩
        · exact congrArg (fun n => some (Value.number n)) (ExactNumber.finite_sub _ _)
        · have hopposite : (y.left - v) - y.left = -v := by ring
          rw [HandCounts.after, hopposite]
          exact eval_unary (hamount hu (hz.trans hleft)) rfl
    | set =>
        refine ⟨_, _, rfl, hamount h hleft, fun {u z} hu hz => ?_⟩
        have hnow := hu.read_left hshow
        rw [hz] at hnow
        refine eval_binary (by simp) (hamount hu (hz.trans hleft)) (eval_path hnow) ?_
        exact congrArg (fun n => some (Value.number n)) (ExactNumber.finite_sub _ _)
  obtain ⟨hwrite, hwritten⟩ := h.write_hands hshow (y.after .permanent operation v).hands
  obtain ⟨u, hease, heased', hadds⟩ := hwritten.exec_ease hshow laws (heased hwritten rfl)
  refine ⟨u, ?_, ?_, ⟨hadds.texts, hadds.recalculations⟩⟩
  · rw [hchange, execBlock_cons_of_next (exec_set htotal hwrite), execBlock_cons_of_next hease]
    rfl
  · rwa [add_sub_cancel] at heased'

/-- Only the hands left change. -/
theorem exec_roundChange (hvalue : Follows host added s value factor v) (hleft : y.left = x.left)
    (operation : HandOperation) :
    ∃ u, execBlock host (HandChange.roundChange operation value) t = some (.next, u) ∧
      HandRun tables added s u (y.after .round operation v) ∧ u.world = t.world := by
  have hamount : value.eval host t = some (.number (.finite v), t) := by
    have heval := h.eval_value hshow hvalue
    rwa [hleft, sub_self, mul_zero, add_zero] at heval
  have hold : (Expr.path HandChange.handsLeft).eval host t = _ := eval_path (h.read_left hshow)
  obtain ⟨new, hchange, hnew⟩ : ∃ new : Expr,
      HandChange.roundChange operation value = [.set HandChange.handsLeft new] ∧
      new.eval host t = some (.number (.finite (y.after .round operation v).left), t) := by
    cases operation with
    | add => exact ⟨_, rfl, eval_binary (by simp) hold hamount rfl⟩
    | subtract =>
        refine ⟨_, rfl, eval_binary (by simp) hold hamount ?_⟩
        exact congrArg (fun n => some (Value.number n)) (ExactNumber.finite_sub _ _)
    | set => exact ⟨_, rfl, hamount⟩
  have hhands : { y with left := (y.after .round operation v).left } =
      y.after .round operation v := by cases operation <;> rfl
  have hwritten := h.setLeft (y.after .round operation v).left
  rw [hhands] at hwritten
  refine ⟨_, ?_, hwritten, rfl⟩
  rw [hchange, execBlock_cons_of_next (exec_set hnew (h.write_left hshow _))]
  rfl

/-- **The run of a change of the number of hands.** -/
theorem exec_change (laws : TriggerLaws host screen shown format)
    (hvalue : Follows host added s value factor v) (hleft : y.left = x.left) (duration : Duration)
    (operation : HandOperation) :
    ∃ u, execBlock host (HandChange.change duration operation value) t = some (.next, u) ∧
      HandRun tables added s u (y.after duration operation v) ∧ screen.Adds t u [] 0 := by
  cases duration with
  | permanent => exact h.exec_permanentChange hshow laws hvalue hleft operation
  | round =>
      obtain ⟨u, hrun, hu, hworld⟩ := h.exec_roundChange hshow hvalue hleft operation
      exact ⟨u, hrun, hu, screen.adds_nil hworld⟩

end HandRun

/-! ### The blind -/

/-- The chips that the blind asks for after a change by the amount `v`, by this factor, or to
it. -/
def BlindOperation.after (operation : BlindOperation) (v c : ℚ) : ℚ :=
  match operation with
  | .add => c + v
  | .subtract => c - v
  | .multiply => c * v
  | .divide => c / v
  | .set => v

/-- The table of the blind, and its display. -/
structure BlindTable where
  blind : ℕ
  hud : Value

namespace BlindTable

/-- The fields of the chips and of their text. -/
def fields (table : BlindTable) : List (ℕ × String) :=
  [(table.blind, "chips"), (table.blind, "chip_text")]

/-- The state **shows** the chips in the table of the blind, and the card does not keep its
variables there. -/
structure Show (table : BlindTable) (s : State W) (c : ℚ) : Prop where
  blind : s.read "G.GAME.blind" = some (.table table.blind)
  hud : s.read "G.HUD_blind" = some table.hud
  chips : (s.tables table.blind).field "chips" = .number (.finite c)
  extra : ∀ a, s.read "card.ability.extra" = some (.table a) → ∀ f ∈ table.fields, f.1 ≠ a

end BlindTable

/-- The blind asks for `c` chips in the state `t`, which comes up while the code runs from
`s`. -/
structure BlindRun (table : BlindTable) (added : List (String × Value)) (s t : State W) (c : ℚ) :
    Prop extends Runs added table.fields s t where
  chips : (t.tables table.blind).field "chips" = .number (.finite c)

namespace BlindRun

variable {table : BlindTable} {c c' : ℚ} {value : Expr} {factor v : ℚ} (hshow : table.Show s c)
  (h : BlindRun table added s t c')

include hshow h

theorem blind : t.read "G.GAME.blind" = some (.table table.blind) :=
  (h.read (by decide)).trans hshow.blind

theorem read_chips : t.read BlindChange.blindChips = some (.number (.finite c')) := by
  have hchild : t.read ("G.GAME.blind" ++ "." ++ "chips") = _ :=
    State.read_child (by decide) (h.blind hshow)
  rw [h.chips] at hchild
  exact hchild

/-- The state shows the chips. -/
theorem shows : table.Show t c' where
  blind := h.blind hshow
  hud := (h.read (by decide)).trans hshow.hud
  chips := h.chips
  extra := by
    rw [h.read (by decide)]
    exact hshow.extra

theorem growing (htu : t.Grows u) : BlindRun table added s u c' := by
  have hblind : table.blind < t.fresh := (h.ready.sound.read hshow.blind).trans_le h.changes.fresh
  exact { toRuns := h.grows htu, chips := by rw [htu.tables _ hblind, h.chips] }

/-- The amount does not see the blind. -/
theorem eval_value (hvalue : Follows host added s value factor v) :
    value.eval host t = some (.number (.finite v), t) := by
  have hpath : ∀ x ∈ ["chips", "chip_text"], x ∉ pathFields HandChange.handsLeft := by decide
  have hroot : pathRoot HandChange.handsLeft ∈ triggerRoots := by decide
  have hleft : t.read HandChange.handsLeft = s.read HandChange.handsLeft := by
    refine h.changes.read h.ready.sound (h.hidden _ hroot) fun f hf => hpath f.2 ?_
    exact List.mem_map_of_mem (f := Prod.snd) hf
  have heval := hvalue (d := 0) h.toRuns hshow.extra fun n hn => by
    rw [hleft, hn, ExactNumber.add_zero]
  rwa [mul_zero, add_zero] at heval

theorem exec_setChips {e : Expr} {d : ℚ} (he : e.eval host t = some (.number (.finite d), t)) :
    ∃ u, (Stmt.set BlindChange.blindChips e).exec host t = some (.next, u) ∧
      BlindRun table added s u d ∧ u.world = t.world := by
  have hwrite : t.write ("G.GAME.blind" ++ "." ++ "chips") (.number (.finite d)) = _ :=
    State.write_child _ (by decide) (h.blind hshow)
  refine ⟨_, exec_set he hwrite, { toRuns := h.setField List.mem_cons_self _, chips := ?_ }, rfl⟩
  rw [State.field_setField, if_pos ⟨rfl, rfl⟩]

theorem exec_setText (laws : TriggerLaws host screen shown format) :
    ∃ u, (Stmt.set "G.GAME.blind.chip_text"
          (.apply "number_format" [.path BlindChange.blindChips])).exec host t = some (.next, u) ∧
      BlindRun table added s u c' ∧
      (u.tables table.blind).field "chip_text" = format (.finite c') ∧ screen.Adds t u [] 0 := by
  obtain ⟨t', hcall, hgrows, hadds⟩ := laws.format (.finite c') t
  have heval : (Expr.apply "number_format" [.path BlindChange.blindChips]).eval host t =
      some (format (.finite c'), t') :=
    (h.eval_apply (by decide) (by decide)
      (evalArgs_cons (eval_path (h.read_chips hshow)) (evalArgs_nil t))).trans hcall
  have h' := h.growing hshow hgrows
  have hwrite : t'.write ("G.GAME.blind" ++ "." ++ "chip_text") (format (.finite c')) = _ :=
    State.write_child _ (by decide) (h'.blind hshow)
  have hmem : (table.blind, "chip_text") ∈ table.fields :=
    List.mem_cons_of_mem _ List.mem_cons_self
  refine ⟨_, exec_set heval hwrite, { toRuns := h'.setField hmem _, chips := ?_ }, ?_,
    hadds.texts, hadds.recalculations⟩
  · rw [State.field_setField, if_neg (by simp), h'.chips]
  · rw [State.field_setField, if_pos ⟨rfl, rfl⟩]

theorem exec_recalculate (laws : TriggerLaws host screen shown format) :
    ∃ u, (Stmt.run (.method (.path "G.HUD_blind") "recalculate" [])).exec host t =
        some (.next, u) ∧
      BlindRun table added s u c' ∧ u.tables table.blind = t.tables table.blind ∧
      screen.Adds t u [] 1 := by
  have hread : t.read "G.HUD_blind" = some table.hud := (h.read (by decide)).trans hshow.hud
  obtain ⟨v, u, hcall, hgrows, hadds⟩ := laws.recalculate hread
  have heval : (Expr.method (.path "G.HUD_blind") "recalculate" []).eval host t = some (v, u) :=
    (eval_method (eval_path hread) (evalArgs_nil t)).trans hcall
  have hblind : table.blind < t.fresh := (h.ready.sound.read hshow.blind).trans_le h.changes.fresh
  exact ⟨u, exec_run heval, h.growing hshow hgrows, hgrows.tables _ hblind, hadds⟩

/-- **The run of a change of the blind.** The text of the chips is formatted anew, and the
display is recalculated once. -/
theorem exec_change (laws : TriggerLaws host screen shown format)
    (hvalue : Follows host added s value factor v) {operation : BlindOperation}
    (hv : operation = .divide → v ≠ 0) :
    ∃ u, execBlock host (BlindChange.change operation value) t = some (.next, u) ∧
      BlindRun table added s u (operation.after v c') ∧
      (u.tables table.blind).field "chip_text" = format (.finite (operation.after v c')) ∧
      screen.Adds t u [] 1 := by
  have hamount := h.eval_value hshow hvalue
  have hold : (Expr.path BlindChange.blindChips).eval host t = _ := eval_path (h.read_chips hshow)
  have hnew : (BlindChange.newChips operation value).eval host t =
      some (.number (.finite (operation.after v c')), t) := by
    cases operation with
    | add => exact eval_binary (by simp) hold hamount rfl
    | subtract =>
        refine eval_binary (by simp) hold hamount ?_
        exact congrArg (fun n => some (Value.number n)) (ExactNumber.finite_sub _ _)
    | multiply => exact eval_binary (by simp) hold hamount rfl
    | divide =>
        refine eval_binary (by simp) hold hamount ?_
        exact congrArg (fun n => some (Value.number n)) (ExactNumber.finite_div _ (hv rfl))
    | set => exact hamount
  obtain ⟨t₁, hchips, h₁, hworld⟩ := h.exec_setChips hshow hnew
  obtain ⟨t₂, htext, h₂, hformat, hadds₂⟩ := h₁.exec_setText hshow laws
  obtain ⟨u, hrecalculate, hu, htables, hadds⟩ := h₂.exec_recalculate hshow laws
  refine ⟨u, ?_, hu, by rw [htables, hformat],
    (screen.adds_nil hworld).trans (hadds₂.trans hadds)⟩
  rw [BlindChange.change, execBlock_cons_of_next hchips, execBlock_cons_of_next htext,
    execBlock_cons_of_next hrecalculate]
  rfl

end BlindRun

/-! ### The start of a round -/

/-- Where the numbers of hands stand at the start of a round. -/
def startHands : HandTables := ⟨6, 7⟩

/-- The blind at the start of a round. -/
def startBlind : BlindTable := ⟨8, .table 5⟩

theorem address_extra_startOfRound {a : ℕ}
    (h : startOfRound.read "card.ability.extra" = some (.table a)) : a = 10 :=
  (Value.table.inj (Option.some.inj h)).symm

theorem startHands_show : startHands.Show startOfRound ⟨4, 4⟩ where
  resets := rfl
  round := rfl
  hands := rfl
  left := rfl
  extra a ha := by
    obtain rfl := address_extra_startOfRound ha
    decide

theorem startBlind_show : startBlind.Show startOfRound 300 where
  blind := rfl
  hud := rfl
  chips := rfl
  extra a ha := by
    obtain rfl := address_extra_startOfRound ha
    decide

end JokerScript
