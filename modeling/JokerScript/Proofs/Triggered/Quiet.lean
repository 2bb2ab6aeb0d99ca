import JokerScript.Proofs.Triggered.Alike

/-!
# Texts between the Code

The code of a trigger may show a text before the change, or after it, or leave it to the return
table. A text is made and shown by calls of the game, in a new table. What was there stays, no
event is scheduled, and nothing is drawn: such a run is **quiet**, and what follows it cannot tell
that it took place, but for the addresses of its own tables.

## Main definitions

* `Quiet` — nothing has happened but that a text was shown.
* `ShapeLaws` — the answers of a game that looks neither at addresses nor at texts.

## Main results

* `eval_amountMessage_quiet`, `exec_statusText_quiet` — a text is shown quietly.
* `Quiet.exists_renames` — a quiet run is a renaming.
-/

namespace JokerScript

open Lua

variable {R : Type} {host : Host (Memory R)} {s t u : State (Memory R)} {v : Value}

/-! ### Quiet runs -/

/-- **Nothing has happened but that a text was shown**: there may be new tables, and calls for
texts. -/
structure Quiet (s t : State (Memory R)) : Prop where
  grows : s.Grows t
  silent : t.world.silent = s.world.silent

namespace Quiet

theorem refl (s : State (Memory R)) : Quiet s s := ⟨.refl s, rfl⟩

theorem trans (h : Quiet s t) (h' : Quiet t u) : Quiet s u :=
  ⟨h.grows.trans h'.grows, h'.silent.trans h.silent⟩

theorem alloc (s : State (Memory R)) (table : Table) : Quiet s (s.alloc table).2 :=
  ⟨s.grows_alloc table, rfl⟩

/-- **A quiet run is a renaming**, which keeps the tables that were there. -/
theorem exists_renames (h : Quiet s t) (hs : s.Contained) :
    ∃ σ : ℕ → ℕ, (∀ a < s.fresh, σ a = a) ∧ s.Renames σ t :=
  hs.exists_renames h.grows h.silent

end Quiet

/-! ### The answers of the game -/

/-- From the first state to the second, the game has changed nothing that it was asked for: only
its record may have changed. -/
structure Idle (s t : State (Memory R)) : Prop where
  grows : s.Grows t
  events : t.world.events = s.world.events
  rest : t.world.rest = s.world.rest

/-- The **laws** of a game that has a record of all calls. The functions that the code of a
trigger calls do not look at addresses, and those that make and show a text do nothing else. -/
structure ShapeLaws (host : Host (Memory R)) : Prop where
  records : host.Records Memory.record
  call : ∀ name ∈ ["pseudorandom", "ease_hands_played", "number_format", "Event"],
    host.CallsAlike name
  method : ∀ name ∈ ["add_event", "recalculate"], host.MethodsAlike name
  tostring (v : Value) (s : State (Memory R)) :
    ∃ text t, host.call "tostring" [v] s = some (.str text, t) ∧ Idle s t
  localize (key : String) (s : State (Memory R)) :
    ∃ v t, host.call "localize" [.str key] s = some (v, t) ∧ Idle s t
  statusText (card : Value) (a : ℕ) (s : State (Memory R)) :
    ∃ v t, host.call "card_eval_status_text" [card, .str "extra", .nil, .nil, .nil, .table a] s =
      some (v, t) ∧ Idle s t

/-- The record of a call for a text is left out. -/
theorem ShapeLaws.quiet (laws : ShapeLaws host) {name : String} {args : List Value}
    (hcall : host.call name args s = some (v, t))
    (htext : (HostCall.function name args).isText = true) (h : Idle s t) : Quiet s t := by
  refine ⟨h.grows, ?_⟩
  rw [Memory.silent, Memory.silent, laws.records.function hcall, List.filter_append]
  simp [htext, h.events, h.rest]

/-! ### Messages -/

section Messages

variable (laws : ShapeLaws host) (hs : Poised s)

include laws hs

/-- The message tells the amount. -/
theorem eval_amountMessage_quiet {value : Expr} (hvalue : value.eval host s = some (v, s))
    (before after : String) :
    ∃ text t, (amountMessage before value after).eval host s = some (.str text, t) ∧
      Quiet s t := by
  obtain ⟨text, t, hcall, hidle⟩ := laws.tostring v s
  have htostring : (Expr.apply "tostring" [value]).eval host s = some (.str text, t) := by
    rw [eval_apply_dotFree (by decide) (hs.visible _ (by decide))
      (evalArgs_cons hvalue (evalArgs_nil s))]
    exact hcall
  refine ⟨before ++ (text ++ after), t, ?_, laws.quiet hcall rfl hidle⟩
  exact eval_binary (by decide) (eval_str before s)
    (eval_binary (by decide) htostring (eval_str after t) rfl) rfl

/-- The message tells that there is a joker more. -/
theorem eval_plusJoker_quiet :
    ∃ v t, JokerCreation.plusJoker.eval host s = some (v, t) ∧ Quiet s t := by
  obtain ⟨v, t, hcall, hidle⟩ := laws.localize "k_plus_joker" s
  refine ⟨v, t, ?_, laws.quiet hcall rfl hidle⟩
  rw [JokerCreation.plusJoker, eval_apply_dotFree (by decide) (hs.visible _ (by decide))
    (evalArgs_cons (eval_str ..) (evalArgs_nil s))]
  exact hcall

omit laws hs in
/-- The message of the author is a literal. -/
theorem eval_messageOr_quiet (effect : Effect) {usual : Expr}
    (h : effect.customMessage = none → ∃ v t, usual.eval host s = some (v, t) ∧ Quiet s t) :
    ∃ v t, (effect.messageOr usual).eval host s = some (v, t) ∧ Quiet s t := by
  rw [Effect.messageOr]
  cases hcustom : effect.customMessage with
  | none => exact h hcustom
  | some text => exact ⟨_, s, eval_str text s, .refl s⟩

/-- **A text is shown quietly.** -/
theorem exec_statusText_quiet {message : Expr} (hmessage : message.eval host s = some (v, t))
    (hst : Quiet s t) (colour : Colour) :
    ∃ u, (statusText message colour).exec host s = some (.next, u) ∧ Quiet s u := by
  obtain ⟨a, hcontext⟩ := hs.context
  obtain ⟨b, hcolours⟩ := hs.colours
  rw [← hs.contained.sound.read_of_grows hst.grows] at hcolours
  obtain ⟨card, table, -, hexec⟩ :=
    exists_exec_statusText colour hcontext (hs.visible _ (by decide)) hmessage hcolours
  obtain ⟨w, u, hcall, hidle⟩ := laws.statusText card t.fresh (t.alloc table).2
  exact ⟨u, hexec hcall, hst.trans ((Quiet.alloc t table).trans (laws.quiet hcall rfl hidle))⟩

end Messages

end JokerScript
