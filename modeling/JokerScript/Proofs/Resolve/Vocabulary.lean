import JokerScript.Proofs.Lua.Uses
import JokerScript.Proofs.Resolve.Settled

/-!
# The Vocabulary of Generated Code

Generated code names the functions and the state of the game, and its own local variables,
by a fixed **vocabulary** of paths. Besides these, there are the variables of the joker, and
the local variable and the suit that are called after a name. So a property of all uses
holds as soon as it holds of the vocabulary and of what a quantity reads.

## Main definitions

* `vocabulary` — the paths.
* `Resolved.reads` — the variables that a resolved quantity reads.

## Main results

* `settled_cases` — the forms of a settled quantity.
* `usesAll_settled` — the uses in the expression of a quantity.
* `reads_settled` — what a settled quantity reads is declared.
-/

namespace JokerScript

open Lua

/-! ### The vocabulary -/

/-- The paths that generated code names outright. -/
def vocabulary : List String :=
  ["G.C.BLUE", "G.C.GREEN", "G.C.RED", "G.E_MANAGER", "G.HUD_blind", "G.I.CARD",
    "G.GAME.blind.chip_text", "G.GAME.blind.chips", "G.GAME.current_round.hands_left",
    "G.GAME.joker_buffer", "G.GAME.round_resets.hands", "G.consumeables.cards",
    "G.jokers.cards", "G.jokers.config.card_limit", "SMODS.add_card",
    "SMODS.change_free_rerolls", "Event", "all_match", "c", "card", "card_eval_status_text",
    "card_to_destroy", "consumable", "consumable.ability.set", "consumable.config.center.key",
    "context.blueprint_card", "context.full_hand", "context.other_card", "context.removed",
    "context.scoring_hand", "created_joker", "ease_hands_played", "hands_before", "ipairs",
    "joker_card", "localize", "math.max", "number_format", "pairs", "pseudorandom",
    "pseudorandom_element", "pseudoseed", "removed_card", "suit_count", "suit_found",
    "table.insert", "target_cards", "tostring", "v", "v.set_cost"] ++
    (GameState.readings.flatMap fun p => p.2.expr.uses).map (·.path)

/-- No path of the vocabulary leads into the storage of the joker. -/
theorem storedName?_of_mem_vocabulary : ∀ p ∈ vocabulary, storedName? p = none := by
  decide +kernel

/-- The property holds of all uses of the vocabulary. -/
def HoldsOfVocabulary (P : PathUse → Prop) : Prop := ∀ p ∈ vocabulary, ∀ b, P ⟨p, b⟩

theorem keepsTo_vocabulary (readable records : List String) :
    HoldsOfVocabulary (PathUse.KeepsTo readable records) :=
  fun p hp => PathUse.keepsTo_elsewhere (storedName?_of_mem_vocabulary p hp)

/-! ### Quantities -/

section Quantities

variable {P : PathUse → Prop}

theorem GameState.Reading.usesAll_expr (hP : HoldsOfVocabulary P) {token : String}
    {reading : GameState.Reading} (h : (token, reading) ∈ GameState.readings) :
    reading.expr.UsesAll P := by
  intro u hu
  have hmem : u ∈ GameState.readings.flatMap fun p => p.2.expr.uses :=
    List.mem_flatMap.mpr ⟨_, h, hu⟩
  exact hP u.path (List.mem_append_right _ (List.mem_map_of_mem hmem)) u.isTarget

theorem GameVar.usesAll_scaled {base : Expr} (h : base.UsesAll P) (m : Number) :
    (GameVar.scaled base m).UsesAll P := by
  rw [GameVar.scaled]
  split
  · exact h
  · simpa [Expr.times] using h

theorem GameVar.usesAll_shifted {base : Expr} (h : base.UsesAll P) (o : Number) :
    (GameVar.shifted base o).UsesAll P := by
  rw [GameVar.shifted]
  split
  · exact h
  · split
    · simpa [Expr.minus] using h
    · simpa [Expr.plus] using h

theorem GameVar.usesAll_expr (hP : HoldsOfVocabulary P) {v : GameVar} {e : Expr}
    (he : v.expr? = some e) : e.UsesAll P := by
  obtain ⟨reading, hmem, rfl⟩ := exists_reading he
  exact usesAll_shifted (usesAll_scaled (reading.usesAll_expr hP hmem) v.multiplier) v.offset

/-- The variables of the joker that a resolved quantity reads. -/
def Resolved.reads : Resolved → List String
  | literal _ slot => slot.toList
  | gameState _ => []
  | range name .. => [minName name, maxName name]
  | named name => [name]

/-- A settled quantity is a literal, the state of the game, a range, or a declared name. -/
theorem settled_cases (naming : Naming) (request : ResolveRequest) (s : Storage)
    (rangeName : String) (source : Source) :
    (∃ n, source.settled naming request s rangeName = request.literal n) ∨
      (∃ (v : GameVar) (e : Expr), v.expr? = some e ∧
        source.settled naming request s rangeName = .gameState e) ∨
      (∃ min max seed, source.settled naming request s rangeName =
        .range rangeName min max seed) ∨
      ∃ name ∈ s.names, source.settled naming request s rangeName = .named name := by
  cases source with
  | gameVar v =>
      cases hv : v.expr? with
      | some e => exact Or.inr (Or.inl ⟨v, e, hv, by simp only [Source.settled, hv]⟩)
      | none => exact Or.inl ⟨Number.zero false, by simp only [Source.settled, hv]⟩
  | range min max => exact Or.inr (Or.inr (Or.inl ⟨min, max, _, rfl⟩))
  | named name =>
      by_cases hname : s.isDeclared name = true
      · have hmem : name ∈ s.names := (s.isDeclared_iff name).mp hname
        exact Or.inr (Or.inr (Or.inr ⟨name, hmem, by rw [Source.settled, if_pos hname]⟩))
      · exact Or.inl ⟨Number.zero false, by rw [Source.settled, if_neg hname]⟩
  | number n => exact Or.inl ⟨n, rfl⟩
  | unresolved => exact Or.inl ⟨_, rfl⟩

/-- **The uses of a quantity** are those of the vocabulary and the variables that it reads. -/
theorem usesAll_settled (hP : HoldsOfVocabulary P) (naming : Naming) (request : ResolveRequest)
    (s : Storage) (rangeName : String) (source : Source)
    (hreads : ∀ name ∈ (source.settled naming request s rangeName).reads,
      P ⟨"card.ability.extra." ++ name, false⟩) :
    (source.settled naming request s rangeName).expr.UsesAll P := by
  obtain ⟨n, hn⟩ | ⟨v, e, he, hv⟩ | ⟨min, max, seed, hr⟩ | ⟨name, -, hn⟩ :=
    settled_cases naming request s rangeName source
  · rw [hn] at hreads ⊢
    obtain ⟨name, owner, policy⟩ := request
    cases policy with
    | declared => exact (Expr.usesAll_extra name).mpr (hreads name List.mem_cons_self)
    | inline => exact Expr.usesAll_number n
  · rw [hv]
    exact GameVar.usesAll_expr hP he
  · rw [hr] at hreads ⊢
    have hdraw : P ⟨"pseudorandom", false⟩ := hP _ (by decide) false
    simp only [Resolved.reads, List.forall_mem_cons] at hreads
    simp [Resolved.expr, hdraw, hreads]
  · rw [hn] at hreads ⊢
    exact (Expr.usesAll_extra name).mpr (hreads name List.mem_cons_self)

end Quantities

/-- **What a settled quantity reads is declared**, once its own variables are. -/
theorem reads_settled {naming : Naming} {request : ResolveRequest} {s : Storage}
    {rangeName : String} {source : Source} {names : List String} (hs : s.names ⊆ names)
    (hvars : ∀ v ∈ (source.settled naming request s rangeName).configVariables, v.name ∈ names) :
    ∀ name ∈ (source.settled naming request s rangeName).reads, name ∈ names := by
  obtain ⟨n, hn⟩ | ⟨v, e, -, hv⟩ | ⟨min, max, seed, hr⟩ | ⟨name, hname, hn⟩ :=
    settled_cases naming request s rangeName source
  · rw [hn] at hvars ⊢
    obtain ⟨name, owner, policy⟩ := request
    cases policy with
    | declared =>
        simpa [ResolveRequest.literal, Resolved.reads, Resolved.configVariables] using hvars
    | inline =>
        rintro _ ⟨⟩
  · rw [hv]
    rintro _ ⟨⟩
  · rw [hr] at hvars ⊢
    simpa [Resolved.reads, Resolved.configVariables] using hvars
  · rw [hn]
    simpa [Resolved.reads] using hs hname

end JokerScript
