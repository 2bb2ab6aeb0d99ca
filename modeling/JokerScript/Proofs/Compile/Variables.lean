import JokerScript.Proofs.Compile.Jokers

/-!
# Variables of Jokers

The variables of a joker come in the order in which they are declared: the numbers of the
author, and then rule by rule the bounds of the counts of the conditions and the variables of
the effects. Each has a name of its own, and keeps its place and its value from then on.

## Main definitions

* `Turn.ruleVars` — the variables that a rule adds.
* `Joker.storages` — the storages between the turns.
* `VarsLaidOut` — the variables of the code of a joker.

## Main results

* `compile_vars` — the variables of the jokers of a mod.
-/

namespace JokerScript

/-- The variables that the turn of a rule adds: the bounds of the counts of its conditions, in
their order, and then the variables of its effects, in theirs. -/
def Turn.ruleVars (setting : Setting) (turn : Turn Rule RuleCode) : List StoredVariable :=
  ((turn.item.conditionTurns setting turn.before).flatMap fun c =>
    c.item.countVars turn.item.trigger c.before) ++
      turn.code.effects.flatMap (·.vars)

/-- The storages that the compilation of a joker goes through: the first one, and those after
the turns of conditions and effects. -/
def Joker.storages (naming : Naming) (start : Storage) (joker : Joker) : List Storage :=
  start :: (joker.ruleTurns naming start).flatMap fun turn =>
    (turn.item.conditionTurns ⟨joker, naming⟩ turn.before).map (·.after) ++
      (turn.item.effectTurns ⟨joker, naming⟩ turn.before).map (·.after)

/-- **The variables of the code of a joker** are laid out in the order of its turns. -/
structure VarsLaidOut (naming : Naming) (joker : Joker) (start : Storage) (code : JokerCode) :
    Prop where
  /-- The code has just the rules that have turns, and these are the ones that fit. -/
  rules : code.rules = (joker.ruleTurns naming start).map (·.code)
  items : (joker.ruleTurns naming start).map (·.item) =
    joker.rules.filter fun rule => rule.misfit?.isNone
  /-- All conditions of these rules have turns. -/
  conditions : ∀ turn ∈ joker.ruleTurns naming start,
    (turn.item.conditionTurns ⟨joker, naming⟩ turn.before).map (·.item) = turn.item.conditions
  vars : code.vars = joker.numberVars ++
    (joker.ruleTurns naming start).flatMap (Turn.ruleVars ⟨joker, naming⟩)
  nodup : (code.vars.map (·.name)).Nodup
  /-- What is declared keeps its place and its value. -/
  kept : ∀ s ∈ joker.storages naming start, s.declared <+: code.vars

namespace Joker

variable {naming : Naming} {joker : Joker} {start : Storage}

/-- The last storage declares the numbers, and what the rules add. -/
theorem declared_last (hstart : Storage.ofJoker joker = .ok start) :
    (lastStorage start (joker.ruleTurns naming start)).declared = joker.numberVars ++
      (joker.ruleTurns naming start).flatMap (Turn.ruleVars ⟨joker, naming⟩) := by
  have hreachable := Storage.Reachable.ofJoker hstart
  rw [← (Storage.ofJoker_eq_ok hstart).1]
  refine declared_lastStorage fun turn hturn => ?_
  obtain ⟨hbefore, hmakes⟩ := ruleTurn_spec hreachable hturn
  exact hmakes.declared hbefore

/-- Every storage that the compilation goes through is extended by the last one. -/
theorem extends_last (hstart : start.Reachable) {s : Storage}
    (hs : s ∈ joker.storages naming start) :
    s.Extends (lastStorage start (joker.ruleTurns naming start)) := by
  rw [storages, List.mem_cons, List.mem_flatMap] at hs
  rcases hs with rfl | ⟨turn, hturn, hs⟩
  · exact (lastStorage_spec (Rule.orderly_compile _) hstart joker.rules).2
  · obtain ⟨hbefore, hmakes⟩ := ruleTurn_spec hstart hturn
    have hlast := (mem_turns_between (Rule.orderly_compile _) hstart hturn).2.2
    rw [List.mem_append, List.mem_map, List.mem_map] at hs
    rcases hs with ⟨c, hc, rfl⟩ | ⟨e, he, rfl⟩
    · exact (hmakes.condition_between hbefore hc).2.trans hlast
    · exact (hmakes.effect_between hbefore he).2.trans hlast

/-- **The variables of a joker** are laid out in the order of its turns. -/
theorem varsLaidOut_codeFrom (hstart : Storage.ofJoker joker = .ok start)
    (failures : List RuleFailure) :
    VarsLaidOut naming joker start (joker.codeFrom naming start failures) := by
  have hreachable := Storage.Reachable.ofJoker hstart
  exact
    { rules := rfl
      items := map_item_ruleTurns naming joker hreachable
      conditions := fun turn hturn => (ruleTurn_spec hreachable hturn).2.conditions
      vars := declared_last hstart
      nodup := (lastStorage_spec (Rule.orderly_compile _) hreachable joker.rules).1.nodup
      kept := fun s hs => (extends_last hreachable hs).declared_keeps }

end Joker

/-- **The variables of the jokers of a mod.** Whatever the rules are and whatever names the
author has given, the variables of each joker are its numbers and then what its rules add, all
names are distinct, and no value is changed after it was declared. -/
theorem compile_vars {naming : Naming} {jokers : List Joker} {code : ModCode}
    (h : compile naming jokers = .ok code) :
    List.Forall₂ (fun joker code => ∃ start, Storage.ofJoker joker = .ok start ∧
      VarsLaidOut naming joker start code) jokers code.jokers := by
  obtain ⟨-, hjokers⟩ := compilesTo_of_compileWith h
  rw [List.forall₂_map_left_iff] at hjokers
  refine hjokers.imp ?_
  rintro joker code ⟨start, hstart, rfl⟩
  exact ⟨start, hstart, Joker.varsLaidOut_codeFrom hstart []⟩

/-- A joker whose variables are called like slots and bounds. Its second rule claims a name and
then fails. -/
def crowded : Joker where
  id := ⟨"joker"⟩
  key := ⟨"crowd"⟩
  vars := [.ofNumber "count" Number.two, .ofSuit "hand_change", .ofNumber "hands_min" Number.one]
  rules :=
    [{ id := ⟨"drawn"⟩
       groups :=
        [{ conditions :=
            [{ subject := .played
               test :=
                { choice := .named "Hearts"
                  quantifier := .atLeast
                  count := some (.text "RANGE:1|2") } }] }]
       effects := [{ id := ⟨"more"⟩, kind := .editHand { value := .number Number.two } }] },
      { id := ⟨"failing"⟩
        trigger := .roundEnd
        effects :=
          [{ id := ⟨"size"⟩, kind := .modifyBlind { value := .number Number.two } },
            { id := ⟨"rerolls"⟩, kind := .freeRerolls {} }] },
      { id := ⟨"held"⟩
        trigger := .passive
        effects :=
          [{ id := ⟨"set"⟩, kind := .editHand { operation := .set, value := .number Number.two } },
            { id := ⟨"less"⟩
              kind := .editHand { operation := .subtract, value := .text "count" } }] }]

/-- The variables of `crowded`. -/
def crowdedVars : List StoredVariable :=
  [⟨"count", Number.two⟩, ⟨"hands_min", Number.one⟩, ⟨"count2_min", Number.one⟩,
    ⟨"count2_max", Number.two⟩, ⟨"hands2", Number.two⟩, ⟨"hand_change2", Number.two⟩,
    ⟨"hand_change3_applied", Number.zero false⟩]

/-- The slots and bounds of `crowded` avoid the names of the author, and the name that the
failed rule had claimed is gone. -/
theorem compile_vars_crowded : ∃ code joker start, compile {} [crowded] = .ok code ∧
    code.jokers = [joker] ∧ joker.vars = crowdedVars ∧ VarsLaidOut {} crowded start joker := by
  have hrun : ((compile {} [crowded]).toOption.map fun code => code.jokers.map (·.vars)) =
      some [crowdedVars] := by
    decide +kernel
  cases hok : compile {} [crowded] with
  | error e =>
      rw [hok] at hrun
      cases hrun
  | ok code =>
      rw [hok] at hrun
      have hvars : code.jokers.map (·.vars) = [crowdedVars] := Option.some.inj hrun
      obtain ⟨joker, rest, ⟨start, -, hjoker⟩, hrest, hjokers⟩ :=
        List.forall₂_cons_left_iff.mp (compile_vars hok)
      rw [List.forall₂_nil_left_iff.mp hrest] at hjokers
      rw [hjokers] at hvars
      exact ⟨code, joker, start, rfl, hjokers, (List.cons.inj hvars).1, hjoker⟩

end JokerScript
