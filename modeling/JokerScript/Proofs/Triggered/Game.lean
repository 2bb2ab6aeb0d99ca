import JokerScript.Code.Effect
import JokerScript.Proofs.Effect.StatusText
import JokerScript.Proofs.Lua.Frame

/-!
# The Game at a Trigger

At a trigger, generated code changes the number of hands or the blind, and shows a message.
It calls the game for this, and laws say what the game answers: a call shows a text, or
recalculates the display of the blind, or changes the hands left in the round, and leaves all
tables that were there alone otherwise. What the game displays it keeps beside its tables.

## Main definitions

* `Screen`, `Screen.Adds` — what the player sees, and how it changes.
* `TriggerLaws` — the answers of the game.
* `Ready` — a state in which the code of a trigger may run.
* `smallGame` — a game that keeps the laws.

## Main results

* `eval_amountMessage`, `exec_statusText` — the message of a change, and its display.
* `smallGame_laws`, `ready_startOfRound` — the small game, and a state that its code may run in.
-/

namespace JokerScript

open Lua

variable {W : Type} {host : Host W} {s t u : State W}

/-! ### What the player sees -/

/-- What the player **sees**, as the game keeps it. -/
structure Screen (W : Type) where
  /-- The status texts, in the order in which they were shown. -/
  texts : W → List Value
  /-- How often the display of the blind was recalculated. -/
  recalculations : W → ℕ

namespace Screen

/-- From the first state to the second, the texts are shown, and the display of the blind is
recalculated `n` times. -/
structure Adds (screen : Screen W) (s t : State W) (texts : List Value) (n : ℕ) : Prop where
  texts : screen.texts t.world = screen.texts s.world ++ texts
  recalculations : screen.recalculations t.world = screen.recalculations s.world + n

variable {screen : Screen W} {xs ys : List Value} {m n : ℕ}

theorem adds_nil (screen : Screen W) (h : t.world = s.world) : screen.Adds s t [] 0 :=
  ⟨by rw [h, List.append_nil], by rw [h, Nat.add_zero]⟩

theorem Adds.trans (h : screen.Adds s t xs m) (h' : screen.Adds t u ys n) :
    screen.Adds s u (xs ++ ys) (m + n) :=
  ⟨by rw [h'.texts, h.texts, List.append_assoc],
    by rw [h'.recalculations, h.recalculations, Nat.add_assoc]⟩

end Screen

/-! ### The answers of the game -/

/-- The **laws** of a game that shows the number `n` as the text `shown n` and formats it as
`format n`. -/
structure TriggerLaws (host : Host W) (screen : Screen W) (shown : ExactNumber → String)
    (format : ExactNumber → Value) : Prop where
  draw {args : List Value} {s t : State W} {v : Value}
    (h : host.call "pseudorandom" args s = some (v, t)) : s.Grows t ∧ screen.Adds s t [] 0
  tostring (n : ExactNumber) (s : State W) :
    host.call "tostring" [.number n] s = some (.str (shown n), s)
  statusText (card : Value) (a : ℕ) (s : State W) :
    ∃ v t, host.call "card_eval_status_text" [card, .str "extra", .nil, .nil, .nil, .table a] s =
        some (v, t) ∧
      s.Grows t ∧ screen.Adds s t [(s.tables a).field "message"] 0
  /-- The hands left in the round change by the amount. -/
  ease {s : State W} {a : ℕ} {l : ExactNumber}
    (hround : s.read "G.GAME.current_round" = some (.table a))
    (hleft : (s.tables a).field "hands_left" = .number l) (n : ExactNumber) :
    ∃ v t, host.call "ease_hands_played" [.number n] s = some (v, t) ∧
      (s.setField a "hands_left" (.number (l.add n))).Grows t ∧ screen.Adds s t [] 0
  format (n : ExactNumber) (s : State W) :
    ∃ t, host.call "number_format" [.number n] s = some (format n, t) ∧
      s.Grows t ∧ screen.Adds s t [] 0
  recalculate {s : State W} {hud : Value} (h : s.read "G.HUD_blind" = some hud) :
    ∃ v t, host.method hud "recalculate" [] s = some (v, t) ∧ s.Grows t ∧ screen.Adds s t [] 1

/-! ### States -/

/-- What the code of a trigger takes from the global variables. -/
def triggerGlobals : List String :=
  ["G", "pseudorandom", "tostring", "card_eval_status_text", "ease_hands_played", "number_format"]

/-- A state that is **ready** for the code of a trigger: it is sound, no local variable hides
what the code takes from the global ones, and there are a context and the colours. -/
structure Ready (s : State W) : Prop where
  sound : s.Sound
  visible : ∀ name ∈ triggerGlobals, s.locals.lookup name = none
  context : ∃ a, s.read "context" = some (.table a)
  colours : ∃ a, s.read "G.C" = some (.table a)

/-- The variables that the code of a trigger begins its paths at. -/
def triggerRoots : List String := "context" :: "card" :: triggerGlobals

/-- The local variables **hide** none of those. -/
def HidesNothing (added : List (String × Value)) : Prop :=
  ∀ name ∈ triggerRoots, added.lookup name = none

/-- The fields that the code of a trigger changes. -/
def changedFields : List String := ["hands", "hands_left", "chips", "chip_text"]

/-- The paths that lead to what the code reads and writes. -/
def triggerPaths : List String :=
  ["context", "card.ability.extra", "G.C", "G.GAME.round_resets", "G.GAME.current_round",
    "G.GAME.blind", "G.HUD_blind"]

theorem triggerPaths_spec : ∀ p ∈ triggerPaths,
    pathRoot p ∈ triggerRoots ∧ ∀ x ∈ pathFields p, x ∉ changedFields := by
  decide +kernel

/-! ### Runs -/

section Runs

variable {added : List (String × Value)} {fields : List (ℕ × String)}

/-- The state `t` comes up while the code of a trigger **runs** from the state `s`. -/
structure Runs (added : List (String × Value)) (fields : List (ℕ × String)) (s t : State W) :
    Prop where
  ready : Ready s
  hidden : HidesNothing added
  names : ∀ f ∈ fields, f.2 ∈ changedFields
  changes : s.ChangesOnly added fields t

namespace Runs

theorem grows (h : Runs added fields s t) (htu : t.Grows u) : Runs added fields s u :=
  { h with changes := h.changes.grows htu }

theorem setField (h : Runs added fields s t) {a : ℕ} {name : String} (ha : (a, name) ∈ fields)
    (v : Value) : Runs added fields s (t.setField a name v) :=
  { h with changes := h.changes.setField ha v }

theorem visible (h : Runs added fields s t) {name : String} (hname : name ∈ triggerGlobals) :
    t.locals.lookup name = none := by
  have hroot : name ∈ triggerRoots := List.mem_cons_of_mem _ (List.mem_cons_of_mem _ hname)
  rw [h.changes.lookup (h.hidden name hroot), h.ready.visible name hname]

theorem read (h : Runs added fields s t) {p : String} (hp : p ∈ triggerPaths) :
    t.read p = s.read p := by
  obtain ⟨hroot, hfields⟩ := triggerPaths_spec p hp
  exact h.changes.read h.ready.sound (h.hidden _ hroot) fun f hf hmem =>
    hfields f.2 hmem (h.names f hf)

end Runs

/-! ### Messages -/

variable {screen : Screen W} {shown : ExactNumber → String} {format : ExactNumber → Value}

/-- A call of a function of the game by its name. -/
theorem Runs.eval_apply (h : Runs added fields s t) {name : String} (hname : name ∈ triggerGlobals)
    (hdot : DotFree name) {args : List Expr} {vs : List Value}
    (hargs : evalArgs host args t = some (vs, u)) :
    (Expr.apply name args).eval host t = host.apply name vs u :=
  eval_apply_dotFree hdot (h.visible hname) hargs

/-- The message tells the amount. -/
theorem eval_amountMessage (laws : TriggerLaws host screen shown format)
    (h : Runs added fields s t) {value : Expr} {n : ExactNumber}
    (hvalue : value.eval host t = some (.number n, t)) (before after : String) :
    (amountMessage before value after).eval host t =
      some (.str (before ++ (shown n ++ after)), t) := by
  have htext : (Expr.apply "tostring" [value]).eval host t = some (.str (shown n), t) := by
    rw [h.eval_apply (by decide) (by decide) (evalArgs_cons hvalue (evalArgs_nil t))]
    exact laws.tostring n t
  exact eval_binary (by decide) (eval_str before t)
    (eval_binary (by decide) htext (eval_str after t) rfl) rfl

/-- **A status text** is shown. -/
theorem exec_statusText (laws : TriggerLaws host screen shown format)
    (h : Runs added fields s t) {message : Expr} {text : Value}
    (hmessage : message.eval host t = some (text, t)) (colour : Colour) :
    ∃ u, (statusText message colour).exec host t = some (.next, u) ∧ t.Grows u ∧
      screen.Adds t u [text] 0 := by
  obtain ⟨a, ha⟩ := h.ready.context
  obtain ⟨b, hb⟩ := h.ready.colours
  have hcontext : t.read "context" = some (.table a) := (h.read (by decide)).trans ha
  have hcolours : t.read "G.C" = some (.table b) := (h.read (by decide)).trans hb
  obtain ⟨card, table, htext, hexec⟩ :=
    exists_exec_statusText colour hcontext (h.visible (by decide)) hmessage hcolours
  obtain ⟨v, u, hcall, hgrows, hadds⟩ := laws.statusText card t.fresh (t.alloc table).2
  rw [htext] at hadds
  exact ⟨u, hexec hcall, (t.grows_alloc table).trans hgrows, hadds.texts, hadds.recalculations⟩

end Runs

/-! ### A small game -/

/-- What a small game keeps beside its tables. -/
structure Display where
  texts : List Value := []
  recalculations : ℕ := 0

/-- The player sees all that the small game keeps. -/
def Display.screen : Screen Display := ⟨texts, recalculations⟩

/-- The text of a whole number. -/
def shownWhole : ExactNumber → String
  | .finite q => toString q.num
  | .infinite negative => if negative then "-inf" else "inf"
  | .nan => "nan"

/-- A **small game**, which draws the lower bound of a range. -/
def smallGame : Host Display where
  call name args s :=
    match name, args with
    | "pseudorandom", [_, min, _] => some (min, s)
    | "tostring", [.number n] | "number_format", [.number n] => some (.str (shownWhole n), s)
    | "card_eval_status_text", [_, _, _, _, _, .table a] =>
        let texts := s.world.texts ++ [(s.tables a).field "message"]
        some (.nil, { s with world := { s.world with texts } })
    | "ease_hands_played", [.number n] =>
        match s.read "G.GAME.current_round" with
        | some (.table a) =>
          match (s.tables a).field "hands_left" with
          | .number l => some (.nil, s.setField a "hands_left" (.number (l.add n)))
          | _ => none
        | _ => none
    | _, _ => none
  method _ name _ s :=
    if name = "recalculate" then
      let recalculations := s.world.recalculations + 1
      some (.nil, { s with world := { s.world with recalculations } })
    else
      none

theorem smallGame_laws :
    TriggerLaws smallGame Display.screen shownWhole (fun n => .str (shownWhole n)) where
  draw {args s t v} h := by
    obtain rfl : s = t := by
      match args, h with
      | [_, _, _], h => exact (Prod.mk.inj (Option.some.inj h)).2
    exact ⟨.refl s, Display.screen.adds_nil rfl⟩
  tostring _ _ := rfl
  statusText _ _ s := ⟨_, _, rfl, s.grows_withWorld _, rfl, rfl⟩
  ease {s a l} hround hleft n :=
    ⟨.nil, _, by simp [smallGame, hround, hleft], .refl _, Display.screen.adds_nil rfl⟩
  format _ s := ⟨s, rfl, .refl s, Display.screen.adds_nil rfl⟩
  recalculate {s _} _ := ⟨_, _, rfl, s.grows_withWorld _, (List.append_nil _).symm, rfl⟩

/-- The fields of the tables at the start of a round: those of `G`, of the context, of the card,
of `G.GAME`, of the colours, of the display of the blind, of `round_resets`, of `current_round`,
of the blind, of the ability of the card, and of its storage. -/
def startFields : List (List (String × Value)) :=
  [[("GAME", .table 3), ("C", .table 4), ("HUD_blind", .table 5)],
    [],
    [("ability", .table 9)],
    [("round_resets", .table 6), ("current_round", .table 7), ("blind", .table 8)],
    [],
    [],
    [("hands", .number (.finite 4))],
    [("hands_left", .number (.finite 4))],
    [("chips", .number (.finite 300)), ("chip_text", .str "300")],
    [("extra", .table 10)],
    [("hands", .number (.finite 1))]]

/-- The **start of a round** with four hands. -/
def startOfRound : State Display where
  globals name :=
    ([("G", .table 0), ("context", .table 1), ("card", .table 2)].lookup name).getD .nil
  tables a := { field := fun name => ((startFields.getD a []).lookup name).getD .nil }
  fresh := startFields.length
  world := {}

theorem sound_startOfRound : startOfRound.Sound := by
  have hfields : ∀ a < startFields.length, ∀ p ∈ startFields.getD a [],
      p.2.IsBelow startFields.length := by decide
  exact ⟨Value.getD_lookup_of_forall (P := Value.IsBelow _) trivial (by decide),
    fun a ha => Value.getD_lookup_of_forall (P := Value.IsBelow _) trivial (hfields a ha)⟩

theorem ready_startOfRound : Ready startOfRound where
  sound := sound_startOfRound
  visible _ _ := rfl
  context := ⟨1, rfl⟩
  colours := ⟨4, rfl⟩

end JokerScript
