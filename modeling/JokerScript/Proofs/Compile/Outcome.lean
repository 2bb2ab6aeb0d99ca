import JokerScript.Proofs.Compile.Jokers

/-!
# Outcomes of Mods

A mod has two faults only. A joker with two numbers of one name ends the compilation, before
any of its rules is looked at. A rule with an effect that does not fit its trigger is reported,
and nothing else is: conditions, quantities and names never make a rule fail, and hook requests
are taken and merged without failure.

## Main results

* `compile_of_nodup`, `compile_of_isFirstRepeat` — when a compilation fails.
* `compile_outcome` — exactly which compilations and which rules fail.
-/

namespace JokerScript

/-- A mod without a repeated number is compiled. -/
theorem compile_of_nodup (naming : Naming) {jokers : List Joker}
    (h : ∀ joker ∈ jokers, joker.numberNames.Nodup) : ∃ code, compile naming jokers = .ok code := by
  have hall : ∀ p ∈ jokers.map fun joker => (joker, ([] : List RuleFailure)),
      p.1.numberNames.Nodup := by
    simpa using h
  obtain ⟨code, hcode, -⟩ := compileWith_of_nodup naming hall
  exact ⟨code, hcode⟩

/-- The first repeated number of the first joker that has one is the error. -/
theorem compile_of_isFirstRepeat (naming : Naming) {before after : List Joker} {joker : Joker}
    {name : String} (h : ∀ other ∈ before, other.numberNames.Nodup)
    (hname : IsFirstRepeat joker.numberNames name) :
    compile naming (before ++ joker :: after) = .error (.duplicateConfigVariable name) := by
  have hbefore : ∀ p ∈ before.map fun joker => (joker, ([] : List RuleFailure)),
      p.1.numberNames.Nodup := by
    simpa using h
  rw [compile, List.map_append, List.map_cons]
  exact compileWith_of_isFirstRepeat naming hbefore hname

/-- The failures of the jokers are the rejections of their rules. -/
theorem map_failures_of_compile {naming : Naming} {jokers : List Joker} {code : ModCode}
    (h : compile naming jokers = .ok code) :
    code.jokers.map (·.failures) =
      jokers.map fun joker => joker.rules.filterMap (Rule.rejection? joker.id) := by
  obtain ⟨-, hjokers⟩ := compilesTo_of_compileWith h
  rw [List.forall₂_map_left_iff] at hjokers
  rw [eq_comm, ← List.forall₂_eq_eq_eq, List.forall₂_map_left_iff, List.forall₂_map_right_iff]
  refine hjokers.imp ?_
  rintro joker code ⟨start, -, rfl⟩
  rfl

/-- **Exactly which compilations and which rules fail.** A compilation fails if and only if a
joker repeats a number, and the first repeated number of the first such joker is the error.
Otherwise the reported rules are those with a misfit, and the first misfit is blamed. The
conditions of a rule are compiled from every storage that the compilation goes through. -/
theorem compile_outcome (naming : Naming) (jokers : List Joker) :
    ((∃ e, compile naming jokers = .error e) ↔ ∃ joker ∈ jokers, ¬joker.numberNames.Nodup) ∧
    (∀ e, compile naming jokers = .error e ↔
      ∃ before joker after name, jokers = before ++ joker :: after ∧
        (∀ other ∈ before, other.numberNames.Nodup) ∧ IsFirstRepeat joker.numberNames name ∧
        e = .duplicateConfigVariable name) ∧
    (∀ code, compile naming jokers = .ok code →
      code.jokers.map (·.failures) =
        jokers.map fun joker => joker.rules.filterMap (Rule.rejection? joker.id)) ∧
    ∀ (setting : Setting) (rule : Rule) (s : Storage), s.Reachable →
      ∃ condition t, (rule.conditionCode? setting).run s = (.ok condition, t) := by
  refine ⟨?_, fun e => ⟨fun h => ?_, ?_⟩, fun code => map_failures_of_compile,
    fun setting rule s hs => ?_⟩
  · rcases forall_nodup_or_isFirstRepeat Joker.numberNames jokers with
      hall | ⟨before, joker, after, name, rfl, hbefore, hname⟩
    · obtain ⟨code, hcode⟩ := compile_of_nodup naming hall
      refine iff_of_false (fun ⟨e, he⟩ => ?_) fun ⟨joker, hjoker, hnot⟩ => hnot (hall joker hjoker)
      rw [hcode] at he
      cases he
    · exact iff_of_true ⟨_, compile_of_isFirstRepeat naming hbefore hname⟩
        ⟨joker, by simp, hname.not_nodup⟩
  · rcases forall_nodup_or_isFirstRepeat Joker.numberNames jokers with
      hall | ⟨before, joker, after, name, rfl, hbefore, hname⟩
    · obtain ⟨code, hcode⟩ := compile_of_nodup naming hall
      rw [hcode] at h
      cases h
    · rw [compile_of_isFirstRepeat naming hbefore hname] at h
      exact ⟨before, joker, after, name, rfl, hbefore, hname, (Except.error.inj h).symm⟩
  · rintro ⟨before, joker, after, name, rfl, hbefore, hname, rfl⟩
    exact compile_of_isFirstRepeat naming hbefore hname
  · obtain ⟨condition, t, -, hrun, -⟩ := rule.run_conditionCode? setting hs
    exact ⟨condition, t, hrun⟩

/-- A joker with a rule that destroys a consumable while the joker is held, which has no
code. -/
def heldRemoval : Joker where
  id := ⟨"joker"⟩
  key := ⟨"shredder"⟩
  vars := [.ofNumber "luck" Number.one, .ofSuit "luck"]
  rules :=
    [{ id := ⟨"shred"⟩
       trigger := .passive
       effects :=
        [{ id := ⟨"hands"⟩, kind := .editHand { value := .text "luck" } },
          { id := ⟨"shred"⟩, kind := .destroyConsumable {} },
          { id := ⟨"create"⟩, kind := .createJoker {} }] }]

/-- A joker with two numbers of one name. -/
def twiceLucky : Joker where
  id := ⟨"twice"⟩
  key := ⟨"twice"⟩
  vars := [.ofNumber "fate" Number.one, .ofNumber "luck" Number.one, .ofNumber "luck" Number.two,
    .ofNumber "fate" Number.two]

/-- The first effect without code is blamed, and the first number that is repeated. -/
theorem compile_outcome_heldRemoval :
    (∃ code, compile {} [heldRemoval] = .ok code ∧ code.jokers.map (·.failures) =
      [[⟨⟨"joker"⟩, ⟨"shred"⟩, some ⟨"shred"⟩,
        .missingTriggerClassShape "destroy_consumable" .passive⟩]]) ∧
    compile {} [heldRemoval, twiceLucky] = .error (.duplicateConfigVariable "luck") ∧
    ∀ rule ∈ heldRemoval.rules, ∃ condition t,
      (rule.conditionCode? ⟨heldRemoval, {}⟩).run {} = (.ok condition, t) := by
  have hnodup : ∀ joker ∈ [heldRemoval], joker.numberNames.Nodup := by decide
  obtain ⟨code, hcode⟩ := compile_of_nodup {} hnodup
  obtain ⟨-, -, hfailures, hconditions⟩ := compile_outcome {} [heldRemoval]
  obtain ⟨-, herror, -, -⟩ := compile_outcome {} [heldRemoval, twiceLucky]
  refine ⟨⟨code, hcode, hfailures code hcode⟩, (herror _).mpr ?_,
    fun rule _ => hconditions _ rule _ .empty⟩
  exact ⟨[heldRemoval], twiceLucky, [], "luck", rfl, hnodup,
    ⟨["fate", "luck"], ["fate"], rfl, by decide, by decide⟩, rfl⟩

end JokerScript
