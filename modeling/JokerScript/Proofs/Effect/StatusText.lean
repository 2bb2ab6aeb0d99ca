import JokerScript.Code.Effect.Basic
import JokerScript.Proofs.Lua.Laws

/-!
# Status Texts

Generated code shows a status text by one call of the game. What this does to the state is the
game's affair; what the call is given is told here, once for all code that shows a text.

## Main results

* `exists_exec_statusText` — the run of a status text is a call of the game.
-/

namespace JokerScript

open Lua

variable {W : Type} {s t : State W} {a b : ℕ}

/-- The card at which a status text is shown. -/
theorem eval_textCard (host : Host W) (hcontext : s.read "context" = some (.table a)) :
    ∃ card, ((Expr.path "context.blueprint_card").or (.path "card")).eval host s =
      some (card, s) := by
  have hchild : s.read ("context" ++ "." ++ "blueprint_card") = _ :=
    State.read_child (by decide) hcontext
  have hor : ((Expr.path "context.blueprint_card").or (.path "card")).eval host s = _ :=
    eval_or (eval_path hchild)
  rw [hor]
  split
  · exact ⟨_, rfl⟩
  · exact ⟨_, eval_path (State.read_of_dotFree s (by decide))⟩

/-- The colours of messages stand in one table. -/
theorem Colour.exists_path (colour : Colour) :
    ∃ name, DotFree name ∧ colour.path = "G.C" ++ "." ++ name := by
  cases colour with
  | green => exact ⟨"GREEN", by decide, by decide⟩
  | red => exact ⟨"RED", by decide, by decide⟩
  | blue => exact ⟨"BLUE", by decide, by decide⟩

/-- A colour is read off the table of colours, whatever the table holds for it. -/
theorem Colour.exists_read (colour : Colour) (hcolours : s.read "G.C" = some (.table b)) :
    ∃ shade, s.read colour.path = some shade := by
  obtain ⟨name, hname, hpath⟩ := colour.exists_path
  exact ⟨_, hpath ▸ State.read_child hname hcolours⟩

/-- **The run of a status text** is a call of the game. The message and the colour are in a new
table. -/
theorem exists_exec_statusText {host : Host W} {message : Expr} {text : Value} (colour : Colour)
    (hcontext : s.read "context" = some (.table a))
    (hvisible : s.locals.lookup "card_eval_status_text" = none)
    (hmessage : message.eval host s = some (text, t))
    (hcolours : t.read "G.C" = some (.table b)) :
    ∃ card table, ((t.alloc table).2.tables t.fresh).field "message" = text ∧
      ∀ {v : Value} {u : State W},
      host.call "card_eval_status_text" [card, .str "extra", .nil, .nil, .nil, .table t.fresh]
        (t.alloc table).2 = some (v, u) →
      (statusText message colour).exec host s = some (.next, u) := by
  obtain ⟨card, hcard⟩ := eval_textCard host hcontext
  obtain ⟨shade, hshade⟩ := colour.exists_read hcolours
  let table : Table :=
    { field := Function.update (Function.update (fun _ => .nil) "colour" shade) "message" text }
  have hrecord : (Expr.record [("message", message), ("colour", .path colour.path)]).eval host s =
      some (t.alloc table) := by
    simp [Expr.record, Expr.eval, evalFields, hmessage, hshade, table]
  have hargs : evalArgs host [(Expr.path "context.blueprint_card").or (.path "card"),
      .str "extra", .nil, .nil, .nil, .record [("message", message),
        ("colour", .path colour.path)]] s =
      some ([card, .str "extra", .nil, .nil, .nil, .table t.fresh], (t.alloc table).2) :=
    evalArgs_cons hcard (evalArgs_cons rfl (evalArgs_cons rfl (evalArgs_cons rfl
      (evalArgs_cons rfl (evalArgs_cons hrecord (evalArgs_nil _))))))
  have htext : ((t.alloc table).2.tables t.fresh).field "message" = text := by
    simp [State.alloc, table]
  have happly : (Expr.apply "card_eval_status_text" _).eval host s = _ :=
    eval_apply_dotFree (by decide) hvisible hargs
  exact ⟨card, table, htext, fun hcall => exec_run (happly.trans hcall)⟩

end JokerScript
