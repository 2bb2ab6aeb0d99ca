import JokerScript.Proofs.Compile.Variables

/-!
# Storage of Jokers

Effects and conditions of one joker share its storage, and the code of each finds its variables
there by name. All that the code uses is declared, but for the number of hands seen before that
a held joker records. The code assigns nothing but the **record** of its own effect, which is no
variable of the author, no value and no bound, and which no other effect assigns.

## Main definitions

* `Joker.effectTurns`, `Joker.requestTurns` — the turns of all effects of a joker, and all its
  requests for names.
* `Joker.slots` — the names that a joker claims.
* `RespectsStorage` — what the code of a joker does with its storage.

## Main results

* `Joker.chained_effectTurns`, `Joker.chained_requestTurns` — turns one after the other.
* `compile_respectsStorage` — the storage of the jokers of a mod.
-/

namespace JokerScript

open Lua

/-! ### Records -/

namespace Effect

variable {trigger : Trigger} {effect : Effect} {s : Storage}

/-- Every request of an effect is also one for the bounds of a range. -/
theorem valueSuffixes_subset {request : SlotRequest}
    (h : request ∈ effect.slotRequest? trigger) : valueSuffixes ⊆ request.suffixes := by
  rw [slotRequest?] at h
  split at h <;> cases h <;> decide

/-- **A record is a form of the slot** that the effect claims, but not one that its quantity
needs. -/
theorem record?_spec {name : String} (h : name ∈ effect.record? trigger s) :
    ∃ request ∈ effect.slotRequest? trigger, name ∈ request.forms s ∧
      name ∉ Storage.forms valueSuffixes (request.slot s) ∧
      name = if effect.setsWhileHeld trigger then HandChange.snapshotName (request.slot s)
        else HandChange.appliedName (request.slot s) := by
  rw [record?] at h
  rw [slotRequest?, setsWhileHeld]
  split at h
  · rename_i params hkind hclass
    cases h
    rw [hkind, hclass]
    refine ⟨_, rfl, ?_⟩
    obtain ⟨operation, duration, value⟩ := params
    cases operation with
    | add | subtract =>
        exact ⟨Storage.mem_forms.mpr ⟨"_applied", by decide, rfl⟩,
          Storage.append_notMem_forms (by decide), rfl⟩
    | set =>
        exact ⟨Storage.mem_forms.mpr ⟨"_original", by decide, rfl⟩,
          Storage.append_notMem_forms (by decide), rfl⟩
  · cases h

end Effect

/-! ### All turns of a joker -/

namespace Joker

/-- The turns of the effects of all rules that have turns, each effect with its trigger. -/
def effectTurns (naming : Naming) (start : Storage) (joker : Joker) :
    List (Turn (Trigger × Effect) EffectCode) :=
  (joker.ruleTurns naming start).flatMap fun turn =>
    (turn.item.effectTurns ⟨joker, naming⟩ turn.before).map
      (Turn.map (fun effect => (turn.item.trigger, effect)) fun code => code)

/-- The requests of all conditions and effects for names, in turn. -/
def requestTurns (naming : Naming) (start : Storage) (joker : Joker) :
    List (Turn (Option SlotRequest) Unit) :=
  (joker.ruleTurns naming start).flatMap fun turn =>
    (turn.item.conditionTurns ⟨joker, naming⟩ turn.before).map
        (Turn.map (·.slotRequest? turn.item.trigger) fun _ => ()) ++
      (turn.item.effectTurns ⟨joker, naming⟩ turn.before).map
        (Turn.map (·.slotRequest? turn.item.trigger) fun _ => ())

/-- The names that the conditions and effects of a joker claim. -/
def slots (naming : Naming) (start : Storage) (joker : Joker) : List String :=
  (joker.requestTurns naming start).filterMap fun turn => turn.item.map (·.slot turn.before)

variable {naming : Naming} {start : Storage} {joker : Joker}

/-- The effects of a joker are compiled one after the other. -/
theorem chained_effectTurns (hstart : start.Reachable) :
    Chained (joker.effectTurns naming start) := by
  refine (chained_turns (Rule.orderly_compile _) hstart _).flatMap fun turn hturn => ?_
  obtain ⟨hbefore, hmakes⟩ := ruleTurn_spec hstart hturn
  refine ⟨?_, fun part hpart => ?_⟩
  · exact (chained_turns (Effect.orderly_compile _ _)
      (Rule.conditions_spec _ turn.item hbefore).1 turn.item.effects).map _ _
  · obtain ⟨effect, heffect, rfl⟩ := List.mem_map.mp hpart
    exact hmakes.effect_between hbefore heffect

/-- The requests of a joker are served one after the other. -/
theorem chained_requestTurns (hstart : start.Reachable) :
    Chained (joker.requestTurns naming start) := by
  refine (chained_turns (Rule.orderly_compile _) hstart _).flatMap fun turn hturn => ?_
  obtain ⟨hbefore, hmakes⟩ := ruleTurn_spec hstart hturn
  obtain ⟨hconditions, -⟩ := Rule.conditions_spec ⟨joker, naming⟩ turn.item hbefore
  refine ⟨List.pairwise_append.mpr ⟨?_, ?_, fun first hfirst second hsecond => ?_⟩,
    fun part hpart => ?_⟩
  · exact (chained_turns (Condition.orderly_code _ _ _) hbefore turn.item.conditions).map _ _
  · exact (chained_turns (Effect.orderly_compile _ _) hconditions turn.item.effects).map _ _
  · obtain ⟨c, hc, rfl⟩ := List.mem_map.mp hfirst
    obtain ⟨e, he, rfl⟩ := List.mem_map.mp hsecond
    have hlast := (mem_turns_between (Condition.orderly_code _ _ _) hbefore hc).2.2
    have hfirst := (mem_turns_between (Effect.orderly_compile _ _) hconditions he).2.1
    exact hlast.trans hfirst
  · rcases List.mem_append.mp hpart with hpart | hpart
    · obtain ⟨c, hc, rfl⟩ := List.mem_map.mp hpart
      exact hmakes.condition_between hbefore hc
    · obtain ⟨e, he, rfl⟩ := List.mem_map.mp hpart
      exact hmakes.effect_between hbefore he

/-- What is known of a turn of an effect among those of its joker. -/
theorem effectTurn_spec (hstart : start.Reachable) {turn : Turn (Trigger × Effect) EffectCode}
    (h : turn ∈ joker.effectTurns naming start) :
    start.Extends turn.before ∧
      turn.after.Extends (lastStorage start (joker.ruleTurns naming start)) ∧
      turn.item.2.Makes ⟨joker, naming⟩ turn.item.1 turn.before turn.code.body turn.code.vars
        turn.after := by
  obtain ⟨rule, hrule, hturn⟩ := List.mem_flatMap.mp h
  obtain ⟨effect, heffect, rfl⟩ := List.mem_map.mp hturn
  obtain ⟨hbefore, hmakes⟩ := ruleTurn_spec hstart hrule
  obtain ⟨-, hstartRule, hruleLast⟩ := mem_turns_between (Rule.orderly_compile _) hstart hrule
  obtain ⟨hfirst, hlast⟩ := hmakes.effect_between hbefore heffect
  have hconditions := (Rule.conditions_spec ⟨joker, naming⟩ rule.item hbefore).1
  exact ⟨hstartRule.trans hfirst, hlast.trans hruleLast,
    (Effect.turn_spec _ hconditions heffect).2.2⟩

/-- Every request is served, and is also one for the bounds of a range. -/
theorem requestTurn_spec (hstart : start.Reachable) {turn : Turn (Option SlotRequest) Unit}
    (h : turn ∈ joker.requestTurns naming start) :
    (∃ vars, turn.before.Serves turn.item vars turn.after) ∧
      ∀ request ∈ turn.item, valueSuffixes ⊆ request.suffixes := by
  obtain ⟨rule, hrule, hturn⟩ := List.mem_flatMap.mp h
  obtain ⟨hbefore, hmakes⟩ := ruleTurn_spec hstart hrule
  rcases List.mem_append.mp hturn with hturn | hturn
  · obtain ⟨c, hc, rfl⟩ := List.mem_map.mp hturn
    refine ⟨⟨_, (Condition.turn_spec _ _ _ hbefore hc).1⟩, fun request hrequest => ?_⟩
    obtain ⟨bounds, -, rfl⟩ := Option.map_eq_some_iff.mp hrequest
    exact List.Subset.refl _
  · obtain ⟨e, he, rfl⟩ := List.mem_map.mp hturn
    have hconditions := (Rule.conditions_spec ⟨joker, naming⟩ rule.item hbefore).1
    exact ⟨⟨_, (Effect.turn_spec _ hconditions he).2.2.serves⟩,
      fun request => Effect.valueSuffixes_subset⟩

/-- The request of an effect is among those of its joker. -/
theorem mem_requestTurns {turn : Turn (Trigger × Effect) EffectCode}
    (h : turn ∈ joker.effectTurns naming start) :
    turn.map (fun p => p.2.slotRequest? p.1) (fun _ => ()) ∈ joker.requestTurns naming start := by
  obtain ⟨rule, hrule, hturn⟩ := List.mem_flatMap.mp h
  obtain ⟨effect, heffect, rfl⟩ := List.mem_map.mp hturn
  exact List.mem_flatMap.mpr ⟨rule, hrule, List.mem_append_right _ (List.mem_map_of_mem heffect)⟩

end Joker

/-! ### Records and values -/

/-- A form of the one request is no value of the other, unless it is one of its own. -/
def Turn.Spares (first second : Turn (Option SlotRequest) Unit) : Prop :=
  ∀ request ∈ first.item, ∀ form ∈ request.forms first.before,
    form ∉ Storage.forms valueSuffixes (request.slot first.before) →
      ∀ other ∈ second.item, form ∉ Storage.forms valueSuffixes (other.slot second.before)

section Storage

variable {naming : Naming} {start : Storage} {joker : Joker}

/-- **No two requests of a joker share a form.** -/
theorem Joker.pairwise_disjoint_forms (hstart : start.Reachable) :
    (joker.requestTurns naming start).Pairwise fun first second =>
      ∀ request ∈ first.item, ∀ other ∈ second.item,
        List.Disjoint (request.forms first.before) (other.forms second.before) := by
  refine List.Pairwise.imp_of_mem ?_ (chained_requestTurns hstart)
  intro first second hfirst hsecond hlater request hrequest other hother
  obtain ⟨⟨vars, hserves⟩, -⟩ := requestTurn_spec hstart hfirst
  obtain ⟨⟨more, hmore⟩, -⟩ := requestTurn_spec hstart hsecond
  rw [hrequest] at hserves
  rw [hother] at hmore
  exact hserves.disjoint_forms hmore hlater

/-- A record is no value of any slot, nor a bound. -/
theorem Joker.spares_requestTurns (hstart : start.Reachable) :
    ∀ first ∈ joker.requestTurns naming start, ∀ second ∈ joker.requestTurns naming start,
      first.Spares second := by
  have hvalues : ∀ turn ∈ joker.requestTurns naming start, ∀ request ∈ turn.item,
      Storage.forms valueSuffixes (request.slot turn.before) ⊆ request.forms turn.before :=
    fun turn hturn request hrequest form =>
      mem_forms_of_subset ((requestTurn_spec hstart hturn).2 request hrequest)
  refine List.Pairwise.forall_of_forall_of_flip (fun turn _ => ?_) ?_ ?_
  · intro request hrequest form _ hnot other hother
    obtain rfl := Option.mem_unique hrequest hother
    exact hnot
  · refine List.Pairwise.imp_of_mem ?_ (pairwise_disjoint_forms hstart)
    intro first second _ hsecond hdisjoint request hrequest form hform _ other hother hmem
    exact hdisjoint request hrequest other hother hform (hvalues second hsecond other hother hmem)
  · refine List.Pairwise.imp_of_mem ?_ (pairwise_disjoint_forms hstart)
    intro first second hfirst _ hdisjoint request hrequest form hform _ other hother hmem
    exact hdisjoint other hother request hrequest (hvalues first hfirst other hother hmem) hform

end Storage

/-! ### What code does with the storage -/

/-- The names of the variables of a joker. -/
def JokerCode.names (code : JokerCode) : List String := code.vars.map (·.name)

namespace Turn

variable (turn other : Turn (Trigger × Effect) EffectCode)

/-- The slot that an effect claims, if it claims one. -/
def slot? : Option String := (turn.item.2.slotRequest? turn.item.1).map (·.slot turn.before)

/-- The variable that the blocks of an effect may assign, if there is one. -/
def record? : Option String := turn.item.2.record? turn.item.1 turn.before

/-- Is the record the number of hands seen before? -/
def recordsSeen : Bool := turn.item.2.setsWhileHeld turn.item.1

/-- The blocks of an effect do not assign the record of another one, and do not use it at all
if it is the number seen before. -/
def LeavesAlone : Prop :=
  ∀ name ∈ other.record?, ∀ b ∈ turn.code.body.blocks.toList,
    BlockUsesAll (fun u => name ∈ u.name? → u.isTarget = false ∧ other.recordsSeen = false) b

end Turn

/-- **What the code of a joker does with the storage** of its copies. -/
structure RespectsStorage (naming : Naming) (joker : Joker) (start : Storage) (code : JokerCode) :
    Prop where
  /-- The code has just the rules and effects that have turns. -/
  rules : code.rules = (joker.ruleTurns naming start).map (·.code)
  effects : code.rules.flatMap (·.effects) = (joker.effectTurns naming start).map (·.code)
  /-- Conditions and messages read declared variables, and assign none. -/
  conditions : ∀ rule ∈ code.rules, ∀ e ∈ rule.condition,
    e.UsesAll (PathUse.KeepsTo code.names [])
  messages : ∀ rule ∈ code.rules, ∀ effect ∈ rule.effects, ∀ e ∈ effect.body.message,
    e.UsesAll (PathUse.KeepsTo code.names [])
  /-- Blocks read declared variables, and read and assign the record of their effect. -/
  blocks : ∀ turn ∈ joker.effectTurns naming start, ∀ b ∈ turn.code.body.blocks.toList,
    BlockUsesAll (PathUse.KeepsTo code.names turn.record?.toList) b
  /-- A record is called after the slot of its effect. It is declared, unless it is the number
  of hands seen before. -/
  records : ∀ turn ∈ joker.effectTurns naming start, ∀ name ∈ turn.record?, ∃ slot ∈ turn.slot?,
    (turn.recordsSeen = true ∧ name = HandChange.snapshotName slot ∧ name ∉ code.names) ∨
      (turn.recordsSeen = false ∧ name = HandChange.appliedName slot ∧ name ∈ code.names)
  /-- No record is a variable of the author. -/
  authored : ∀ turn ∈ joker.effectTurns naming start, ∀ name ∈ turn.record?,
    ∀ v ∈ joker.vars, name ≠ v.name
  /-- No record is the value of a slot, or a bound. -/
  values : ∀ turn ∈ joker.effectTurns naming start, ∀ name ∈ turn.record?,
    ∀ slot ∈ joker.slots naming start, name ∉ Storage.forms valueSuffixes slot
  /-- No effect assigns the record of another one, or reads the number that it has seen. -/
  apart : (joker.effectTurns naming start).Pairwise fun first second =>
    first.LeavesAlone second ∧ second.LeavesAlone first

namespace Joker

variable {naming : Naming} {joker : Joker} {start : Storage}

/-- The effects of the compiled rules are those that have turns. -/
theorem flatMap_effects_ruleTurns (hstart : start.Reachable) :
    ((joker.ruleTurns naming start).map (·.code)).flatMap (·.effects) =
      (joker.effectTurns naming start).map (·.code) := by
  rw [List.flatMap_map, effectTurns, List.map_flatMap]
  refine List.flatMap_congr fun turn hturn => ?_
  rw [(ruleTurn_spec hstart hturn).2.effects, List.map_map]
  rfl

/-- A record was free before the turn of its effect, and is taken after it. -/
theorem record_fresh (hstart : start.Reachable) {turn : Turn (Trigger × Effect) EffectCode}
    (h : turn ∈ joker.effectTurns naming start) {name : String} (hname : name ∈ turn.record?) :
    name ∉ turn.before.taken ∧ name ∈ turn.after.taken := by
  obtain ⟨request, hrequest, hform, -⟩ := Effect.record?_spec hname
  have hserves := (effectTurn_spec hstart h).2.2.serves
  rw [hrequest] at hserves
  exact hserves.fresh name hform

/-- The blocks of an effect use declared variables and its record. -/
theorem keepsTo_blocks (hstart : start.Reachable) {turn : Turn (Trigger × Effect) EffectCode}
    (h : turn ∈ joker.effectTurns naming start) :
    ∀ b ∈ turn.code.body.blocks.toList, BlockUsesAll (PathUse.KeepsTo
      (lastStorage start (joker.ruleTurns naming start)).names turn.record?.toList) b := by
  obtain ⟨-, hlast, hmakes⟩ := effectTurn_spec hstart h
  exact fun b hb => (hmakes.blocks b hb).mono hlast.names_subset (List.Subset.refl _)

/-- A record is declared in the end, unless it is the number seen before. -/
theorem recordsSeen_iff (hstart : start.Reachable) {turn : Turn (Trigger × Effect) EffectCode}
    (h : turn ∈ joker.effectTurns naming start) {name : String} (hname : name ∈ turn.record?) :
    turn.recordsSeen = true ↔
      name ∉ (lastStorage start (joker.ruleTurns naming start)).names := by
  obtain ⟨-, hlast, hmakes⟩ := effectTurn_spec hstart h
  refine (hmakes.record name hname).trans (not_congr ⟨fun hmem => hlast.names_subset hmem, ?_⟩)
  exact hlast.untouched name (record_fresh hstart h hname).2

/-- An effect leaves the record of another one alone if they have no record in common. -/
theorem leavesAlone_of_disjoint (hstart : start.Reachable)
    {first second : Turn (Trigger × Effect) EffectCode}
    (hfirst : first ∈ joker.effectTurns naming start)
    (hsecond : second ∈ joker.effectTurns naming start)
    (hdisjoint : ∀ name ∈ first.record?, name ∉ second.record?) : first.LeavesAlone second := by
  intro name hname b hb u hu hused
  rcases keepsTo_blocks hstart hfirst b hb u hu name hused with ⟨htarget, hdeclared⟩ | hrecord
  · refine ⟨htarget, ?_⟩
    rw [Bool.eq_false_iff]
    exact fun hseen => (recordsSeen_iff hstart hsecond hname).mp hseen hdeclared
  · exact absurd hname (hdisjoint name (Option.mem_toList.mp hrecord))

/-- **No effect assigns the record of another one**, in whatever order the two come. -/
theorem pairwise_leavesAlone (hstart : start.Reachable) :
    (joker.effectTurns naming start).Pairwise fun first second =>
      first.LeavesAlone second ∧ second.LeavesAlone first := by
  refine List.Pairwise.imp_of_mem ?_ (chained_effectTurns hstart)
  intro first second hfirst hsecond hlater
  have hdisjoint : ∀ name ∈ first.record?, name ∉ second.record? := fun name hname hmem =>
    (record_fresh hstart hsecond hmem).1 (hlater.taken (record_fresh hstart hfirst hname).2)
  exact ⟨leavesAlone_of_disjoint hstart hfirst hsecond hdisjoint,
    leavesAlone_of_disjoint hstart hsecond hfirst fun name hname hmem =>
      hdisjoint name hmem hname⟩

/-- A record is called after the slot of its effect, and it is the number seen before unless it
is declared. -/
theorem record_named (hstart : start.Reachable) {turn : Turn (Trigger × Effect) EffectCode}
    (h : turn ∈ joker.effectTurns naming start) {name : String} (hname : name ∈ turn.record?) :
    ∃ slot ∈ turn.slot?,
      (turn.recordsSeen = true ∧ name = HandChange.snapshotName slot ∧
        name ∉ (lastStorage start (joker.ruleTurns naming start)).names) ∨
      (turn.recordsSeen = false ∧ name = HandChange.appliedName slot ∧
        name ∈ (lastStorage start (joker.ruleTurns naming start)).names) := by
  obtain ⟨request, hrequest, -, -, heq⟩ := Effect.record?_spec hname
  have hseen := recordsSeen_iff hstart h hname
  refine ⟨request.slot turn.before, Option.mem_map_of_mem _ hrequest, ?_⟩
  cases hsets : turn.item.2.setsWhileHeld turn.item.1 with
  | true =>
      rw [hsets, if_pos rfl] at heq
      exact Or.inl ⟨hsets, heq, hseen.mp hsets⟩
  | false =>
      rw [hsets, if_neg Bool.false_ne_true] at heq
      refine Or.inr ⟨hsets, heq, ?_⟩
      by_contra hnot
      exact absurd (hseen.mpr hnot) (Bool.eq_false_iff.mp hsets)

/-- A record is no value of a slot of its joker, and no bound. -/
theorem record_notMem_forms (hstart : start.Reachable)
    {turn : Turn (Trigger × Effect) EffectCode} (h : turn ∈ joker.effectTurns naming start)
    {name slot : String} (hname : name ∈ turn.record?) (hslot : slot ∈ joker.slots naming start) :
    name ∉ Storage.forms valueSuffixes slot := by
  obtain ⟨request, hrequest, hform, hnot, -⟩ := Effect.record?_spec hname
  obtain ⟨second, hsecond, hsome⟩ := List.mem_filterMap.mp hslot
  obtain ⟨other, hother, rfl⟩ := Option.map_eq_some_iff.mp hsome
  exact spares_requestTurns hstart _ (mem_requestTurns h) second hsecond request hrequest name
    hform hnot other hother

/-- **The code of a joker respects the storage.** -/
theorem respectsStorage_codeFrom (hstart : Storage.ofJoker joker = .ok start)
    (failures : List RuleFailure) :
    RespectsStorage naming joker start (joker.codeFrom naming start failures) := by
  have hreachable := Storage.Reachable.ofJoker hstart
  have heffects : ((joker.ruleTurns naming start).map (·.code)).flatMap (·.effects) =
      (joker.effectTurns naming start).map (·.code) := flatMap_effects_ruleTurns hreachable
  refine
    { rules := rfl
      effects := heffects
      conditions := ?_
      messages := ?_
      blocks := fun turn => keepsTo_blocks hreachable
      records := fun turn hturn name => record_named hreachable hturn
      authored := ?_
      values := fun turn hturn name hname slot => record_notMem_forms hreachable hturn hname
      apart := pairwise_leavesAlone hreachable }
  · intro rule hrule e he
    obtain ⟨turn, hturn, rfl⟩ := List.mem_map.mp hrule
    have hlast := (mem_turns_between (Rule.orderly_compile _) hreachable hturn).2.2
    exact ((ruleTurn_spec hreachable hturn).2.condition e he).mono hlast.names_subset
      (List.Subset.refl [])
  · intro rule hrule effect heffect e he
    have hmem : effect ∈ ((joker.ruleTurns naming start).map (·.code)).flatMap (·.effects) :=
      List.mem_flatMap.mpr ⟨rule, hrule, heffect⟩
    rw [heffects] at hmem
    obtain ⟨turn, hturn, rfl⟩ := List.mem_map.mp hmem
    obtain ⟨-, hlast, hmakes⟩ := effectTurn_spec hreachable hturn
    exact (hmakes.message e he).mono hlast.names_subset (List.Subset.refl [])
  · rintro turn hturn name hname v hv rfl
    obtain ⟨hfirst, -⟩ := effectTurn_spec hreachable hturn
    exact (record_fresh hreachable hturn hname).1
      (hfirst.taken ((Storage.ofJoker_eq_ok hstart).2 v hv))

end Joker

/-- **The code of a mod respects the storage of its jokers**, whatever the rules are and
whatever names the author has given. -/
theorem compile_respectsStorage {naming : Naming} {jokers : List Joker} {code : ModCode}
    (h : compile naming jokers = .ok code) :
    List.Forall₂ (fun joker code => ∃ start, Storage.ofJoker joker = .ok start ∧
      RespectsStorage naming joker start code) jokers code.jokers := by
  obtain ⟨-, hjokers⟩ := compilesTo_of_compileWith h
  rw [List.forall₂_map_left_iff] at hjokers
  refine hjokers.imp ?_
  rintro joker code ⟨start, hstart, rfl⟩
  exact ⟨start, hstart, Joker.respectsStorage_codeFrom hstart []⟩

/-- The records of `crowded`: the drawn hands are changed without one, the held ones record the
number seen before and the number added. -/
theorem compile_respectsStorage_crowded : ∃ code joker start, compile {} [crowded] = .ok code ∧
    code.jokers = [joker] ∧ RespectsStorage {} crowded start joker ∧
    (crowded.effectTurns {} start).map Turn.record? =
      [none, some "hand_change2_original", some "hand_change3_applied"] ∧
    crowded.slots {} start = ["count2", "hands2", "hand_change2", "hand_change3"] := by
  have hok : (compile {} [crowded]).isOk = true := by
    decide +kernel
  have hnames : ((Storage.ofJoker crowded).toOption.map fun start =>
      ((crowded.effectTurns {} start).map Turn.record?, crowded.slots {} start)) =
      some ([none, some "hand_change2_original", some "hand_change3_applied"],
        ["count2", "hands2", "hand_change2", "hand_change3"]) := by
    decide +kernel
  cases hcode : compile {} [crowded] with
  | error e =>
      rw [hcode] at hok
      cases hok
  | ok code =>
      obtain ⟨joker, rest, ⟨start, hstart, hjoker⟩, hrest, hjokers⟩ :=
        List.forall₂_cons_left_iff.mp (compile_respectsStorage hcode)
      rw [List.forall₂_nil_left_iff.mp hrest] at hjokers
      rw [hstart] at hnames
      obtain ⟨hrecords, hslots⟩ := Prod.mk.inj (Option.some.inj hnames)
      exact ⟨code, joker, start, rfl, hjokers, hjoker, hrecords, hslots⟩

end JokerScript
