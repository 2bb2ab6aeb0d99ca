import JokerScript.Proofs.Compile.Outcome
import JokerScript.Proofs.Compile.Stored
import JokerScript.Proofs.Condition.Draws
import JokerScript.Proofs.Effect.Draws

/-!
# Draws of Mods

All randomness in the code of a mod comes from the draws of its conditions and effects, and two
draws share a stream only if they are called by one name and their owners begin with the same
characters. A joker claims a new slot for each number that it draws, so that its numbers come
from different streams, whatever ids the author has chosen.

## Main definitions

* `RuleCode.draws`, `JokerCode.draws` — the draws in code.
* `Joker.draws` — the draws of a joker.

## Main results

* `Rule.Makes.draws` — the code of a rule has the draws of the rule, and no other.
* `compile_draws` — the draws in the code of a mod, and their streams.
-/

namespace JokerScript

open Lua

/-! ### Rules -/

namespace RuleCode

/-- The draws in the code of a rule. -/
def draws (code : RuleCode) : List DrawCall :=
  code.condition.toList.flatMap Expr.draws ++ code.effects.flatMap fun effect => effect.body.draws

end RuleCode

namespace Rule

variable (setting : Setting) (rule : Rule) (s : Storage)

/-- The draws of the conditions of a rule. -/
def conditionDraws : List Draw :=
  (rule.conditionTurns setting s).filterMap fun turn =>
    turn.item.draw? rule.id rule.trigger turn.before

/-- The draws of the effects of a rule. -/
def effectDraws : List Draw :=
  (rule.effectTurns setting s).filterMap fun turn => turn.item.draw? rule.trigger turn.before

/-- The draws of a rule. -/
def draws : List Draw := rule.conditionDraws setting s ++ rule.effectDraws setting s

variable {setting rule s} {code : RuleCode} {t : Storage}

/-- **The code of a rule has the draws of the rule**, and no other. -/
theorem Makes.draws (h : rule.Makes setting s code t) (hs : s.Reachable) :
    code.draws = (rule.draws setting s).map (Draw.call setting.naming) := by
  have hconditions : code.condition.toList.flatMap Expr.draws =
      (rule.conditionDraws setting s).map (Draw.call setting.naming) := by
    rw [h.joins.draws, List.flatMap_map, conditionDraws, List.map_filterMap,
      List.filterMap_eq_flatMap_toList]
    refine List.flatMap_congr fun turn hturn => ?_
    rw [(Condition.turn_spec setting rule.id rule.trigger hs hturn).2.1]
    exact turn.item.draws_written setting rule.id rule.trigger turn.before
  have heffects : (code.effects.flatMap fun effect => effect.body.draws) =
      (rule.effectDraws setting s).map (Draw.call setting.naming) := by
    rw [h.effects, List.flatMap_map, effectDraws, List.map_filterMap,
      List.filterMap_eq_flatMap_toList]
    refine List.flatMap_congr fun turn hturn => ?_
    exact (Effect.writes_of_mem_turns (conditions_spec setting rule hs).1 hturn).draws
  rw [RuleCode.draws, hconditions, heffects, Rule.draws, List.map_append]

end Rule

/-! ### Jokers -/

/-- The draws in the code of a joker. -/
def JokerCode.draws (code : JokerCode) : List DrawCall := code.rules.flatMap RuleCode.draws

/-- The numbers that are drawn have names from another list, if each of them has. -/
theorem Draw.names_sublist {α : Type} {items : List α} {f : α → Option Draw}
    {slot? : α → Option String}
    (h : ∀ a ∈ items, ∀ d ∈ f a, d.isNumber = true → d.name ∈ slot? a) :
    (((items.filterMap f).filter isNumber).map name).Sublist (items.filterMap slot?) := by
  rw [List.filterMap_eq_flatMap_toList, List.filterMap_eq_flatMap_toList, List.filter_flatMap,
    List.map_flatMap]
  refine List.Sublist.flatMap_right items fun a ha => ?_
  cases hf : f a with
  | none => exact List.nil_sublist _
  | some d =>
      rw [Option.toList_some, List.filter_singleton]
      cases hnumber : d.isNumber with
      | false => exact List.nil_sublist _
      | true =>
          rw [h a ha d hf hnumber]
          exact List.Sublist.refl _

namespace Joker

/-- The draws of the rules of a joker that have turns. -/
def drawsFrom (naming : Naming) (start : Storage) (joker : Joker) : List Draw :=
  (joker.ruleTurns naming start).flatMap fun turn => turn.item.draws ⟨joker, naming⟩ turn.before

/-- The draws of a joker, whose rules are compiled from the storage of its own variables. -/
def draws (naming : Naming) (joker : Joker) : List Draw :=
  match Storage.ofJoker joker with
  | .ok start => joker.drawsFrom naming start
  | .error _ => []

variable {naming : Naming} {start : Storage} {joker : Joker}

/-- **A joker claims different slots.** -/
theorem nodup_slots (hstart : start.Reachable) : (joker.slots naming start).Nodup := by
  rw [slots, List.Nodup, List.pairwise_filterMap]
  refine (pairwise_disjoint_forms hstart).imp fun {first second} hdisjoint => ?_
  intro slot hslot other hother heq
  obtain ⟨request, hrequest, rfl⟩ := Option.map_eq_some_iff.mp hslot
  obtain ⟨later, hlater, rfl⟩ := Option.map_eq_some_iff.mp hother
  refine hdisjoint request hrequest later hlater (Storage.self_mem_forms _ _) ?_
  rw [heq]
  exact Storage.self_mem_forms _ _

/-- The numbers of a joker are drawn under its slots. -/
theorem numbers_sublist_slots :
    (((joker.drawsFrom naming start).filter Draw.isNumber).map Draw.name).Sublist
      (joker.slots naming start) := by
  rw [drawsFrom, slots, requestTurns, List.filter_flatMap, List.map_flatMap, List.filterMap_flatMap]
  -- Turn by turn, a number is drawn under the slot of the request of the same turn.
  refine List.Sublist.flatMap_right _ fun turn hturn => ?_
  rw [Rule.draws, List.filter_append, List.map_append, List.filterMap_append, List.filterMap_map,
    List.filterMap_map]
  refine List.Sublist.append ?_ ?_
  · refine Draw.names_sublist fun c hc d hd _ => ?_
    obtain ⟨-, -, request, hrequest, hname⟩ := Condition.draw?_spec hd
    exact Option.map_eq_some_iff.mpr ⟨request, hrequest, hname.symm⟩
  · refine Draw.names_sublist fun e he d hd hnumber => ?_
    obtain ⟨request, hrequest, hname⟩ := (Effect.draw?_spec hd).2 hnumber
    exact Option.map_eq_some_iff.mpr ⟨request, hrequest, hname.symm⟩

theorem isStreamName_of_mem_draws {d : Draw} (h : d ∈ joker.draws naming) :
    IsStreamName d.name := by
  rw [draws] at h
  split at h
  · obtain ⟨turn, -, hd⟩ := List.mem_flatMap.mp h
    rcases List.mem_append.mp hd with hd | hd
    · obtain ⟨c, -, hd⟩ := List.mem_filterMap.mp hd
      exact (Condition.draw?_spec hd).1
    · obtain ⟨e, -, hd⟩ := List.mem_filterMap.mp hd
      exact (Effect.draw?_spec hd).1
  · cases h

/-- **The numbers of a joker come from different streams.** -/
theorem nodup_numberSeeds (naming : Naming) (joker : Joker) :
    (((joker.draws naming).filter Draw.isNumber).map (Draw.seed naming)).Nodup := by
  have hnames : (((joker.draws naming).filter Draw.isNumber).map Draw.name).Nodup := by
    rw [draws]
    split
    · rename_i start hstart
      have hreachable := Storage.Reachable.ofJoker hstart
      exact (nodup_slots hreachable).sublist numbers_sublist_slots
    · exact List.nodup_nil
  rw [List.Nodup, List.pairwise_map] at hnames ⊢
  refine List.Pairwise.imp_of_mem ?_ hnames
  intro d e hd he hne hseed
  have hd := isStreamName_of_mem_draws (List.mem_of_mem_filter hd)
  have he := isStreamName_of_mem_draws (List.mem_of_mem_filter he)
  exact hne ((naming.seed_inj hd he).mp hseed).1

end Joker

/-! ### Mods -/

/-- **The draws of a mod.** The code of a joker has the draws of the joker, and no other. Two
draws of the mod share a stream exactly if they are called by one name and the short ids of
their owners are the same, and no two numbers of one joker share a stream. -/
theorem compile_draws {naming : Naming} {jokers : List Joker} {code : ModCode}
    (h : compile naming jokers = .ok code) :
    List.Forall₂ (fun joker jokerCode =>
        jokerCode.draws = (joker.draws naming).map (Draw.call naming)) jokers code.jokers ∧
      (∀ d ∈ jokers.flatMap (Joker.draws naming), ∀ e ∈ jokers.flatMap (Joker.draws naming),
        d.seed naming = e.seed naming ↔ d.name = e.name ∧ shortId d.owner = shortId e.owner) ∧
      ∀ joker ∈ jokers, (((joker.draws naming).filter Draw.isNumber).map
        (Draw.seed naming)).Nodup := by
  refine ⟨?_, fun d hd e he => ?_, fun joker _ => joker.nodup_numberSeeds naming⟩
  · obtain ⟨-, hjokers⟩ := compilesTo_of_compileWith h
    rw [List.forall₂_map_left_iff] at hjokers
    refine hjokers.imp ?_
    rintro joker jokerCode ⟨start, hstart, rfl⟩
    have hreachable := Storage.Reachable.ofJoker hstart
    rw [Joker.draws, hstart, JokerCode.draws, Joker.codeFrom, List.flatMap_map]
    refine Eq.trans ?_ List.map_flatMap.symm
    refine List.flatMap_congr fun turn hturn => ?_
    obtain ⟨hbefore, hmakes⟩ := Joker.ruleTurn_spec hreachable hturn
    exact hmakes.draws hbefore
  · obtain ⟨joker, -, hd⟩ := List.mem_flatMap.mp hd
    obtain ⟨other, -, he⟩ := List.mem_flatMap.mp he
    exact naming.seed_inj (Joker.isStreamName_of_mem_draws hd)
      (Joker.isStreamName_of_mem_draws he)

/-- A joker all of whose draws belong to ids that begin with the same characters. -/
def gambler : Joker where
  id := ⟨"joker"⟩
  key := ⟨"gambler"⟩
  rules :=
    [{ id := ⟨"effect-1-rule"⟩
       groups :=
        [{ conditions :=
            [{ subject := .played
               test :=
                { choice := .named "Hearts"
                  quantifier := .atLeast
                  count := some (.text "RANGE:1|2") } }] }]
       effects :=
        [{ id := ⟨"effect-1-a"⟩, kind := .editHand { value := .text "RANGE:1|2" } },
          { id := ⟨"effect-1-b"⟩, kind := .editHand { value := .text "RANGE:1|2" } },
          { id := ⟨"effect-1-c"⟩, kind := .modifyBlind { value := .text "RANGE:1|2" } },
          { id := ⟨"effect-1-d"⟩, kind := .destroyConsumable {} },
          { id := ⟨"effect-1-e"⟩, kind := .destroyConsumable {} }] }]

/-- The draws of `gambler`. -/
def gamblerDraws : List Draw :=
  [.number "count" "effect-1-rule", .number "hands" "effect-1-a", .number "hands2" "effect-1-b",
    .number "blind_size" "effect-1-c", .consumable "effect-1-d", .consumable "effect-1-e"]

/-- The numbers of `gambler` come from different streams, but its two choices share one. -/
theorem compile_draws_gambler : ∃ code joker, compile {} [gambler] = .ok code ∧
    code.jokers = [joker] ∧ joker.draws = gamblerDraws.map (Draw.call {}) ∧
    ((gamblerDraws.filter Draw.isNumber).map (Draw.seed {})).Nodup ∧
    (Draw.consumable "effect-1-d").seed {} = (Draw.consumable "effect-1-e").seed {} := by
  have hdraws : gambler.draws {} = gamblerDraws := by
    decide +kernel
  have hnodup : ∀ joker ∈ [gambler], joker.numberNames.Nodup := by decide
  obtain ⟨code, hcode⟩ := compile_of_nodup {} hnodup
  obtain ⟨hjokers, hshare, hnumbers⟩ := compile_draws hcode
  obtain ⟨joker, rest, hjoker, hrest, hall⟩ := List.forall₂_cons_left_iff.mp hjokers
  obtain rfl := List.forall₂_nil_left_iff.mp hrest
  have hmem : ∀ d ∈ gamblerDraws, d ∈ [gambler].flatMap (Joker.draws {}) := fun d hd =>
    List.mem_flatMap.mpr ⟨gambler, List.mem_cons_self, hdraws ▸ hd⟩
  refine ⟨code, joker, hcode, hall, hdraws ▸ hjoker, hdraws ▸ hnumbers gambler List.mem_cons_self,
    ?_⟩
  have hfirst := hmem (.consumable "effect-1-d") (by decide)
  exact (hshare _ hfirst _ (hmem (.consumable "effect-1-e") (by decide))).mpr ⟨rfl, by decide⟩

end JokerScript
