import JokerScript.Proofs.Compile.Scoped
import JokerScript.Proofs.Creation.Announced
import JokerScript.Proofs.Effect.Locals

/-!
# Messages of Rules

Inside scoring, the blocks of all effects of a rule stand before the return table, one after the
other, and the table shows their messages. So a message is evaluated when the blocks of the later
effects have been run as well. It still reads what its own block has left, as long as no later
block binds the same local variables.

The variables of drawn numbers are told apart by the slots of their effects. The variable that
tells whether a joker is created is not: all creations of a rule declare it under one name. So the
usual message of a creation tells the outcome of the last creation of its rule.

## Main definitions

* `deferredBlock`, `messageExprs` — the blocks and the messages of a list of effects.
* `Rule.effectCodes` — the effects of a rule with their codes.
* `Rule.MessagesApart` — what the messages of a rule read.

## Main results

* `Rule.Makes.messagesApart`, `compile_messagesApart` — the messages of all rules.
* `exists_overwritten_twins` — a message that tells the outcome of another effect.
-/

namespace JokerScript

open Lua

/-! ### Blocks and messages of a rule -/

/-- The blocks of the effects before the return table. -/
def deferredBlock (effects : List EffectCode) : Block :=
  effects.flatMap fun effect => effect.body.deferred

/-- The messages of the effects in the return table. -/
def messageExprs (effects : List EffectCode) : List Expr :=
  effects.flatMap fun effect => effect.body.message.toList

@[simp] theorem deferredBlock_nil : deferredBlock [] = [] := rfl

@[simp] theorem deferredBlock_cons (effect : EffectCode) (effects : List EffectCode) :
    deferredBlock (effect :: effects) = effect.body.deferred ++ deferredBlock effects :=
  List.flatMap_cons

theorem deferredBlock_append (first second : List EffectCode) :
    deferredBlock (first ++ second) = deferredBlock first ++ deferredBlock second :=
  List.flatMap_append

theorem mem_blockBindings_deferredBlock {effects : List EffectCode} {x : String} :
    x ∈ blockBindings (deferredBlock effects) ↔
      ∃ effect ∈ effects, x ∈ blockBindings effect.body.deferred := by
  simp [deferredBlock, blockBindings_eq, List.flatMap_assoc]

/-- What no later block binds is, after all blocks and any messages, as it was before the later
blocks. -/
theorem exists_lookup_eq {W : Type} {host : Host W} (hhost : host.KeepsLocals) {s u v : State W}
    {effects : List EffectCode} {messages : List Expr} {values : List Value} {roots : List String}
    (n : ℕ) (hrun : execBlock host (deferredBlock effects) s = some (.next, u))
    (hmessages : evalArgs host messages u = some (values, v))
    (hquiet : ∀ e ∈ messages, e.bindings = [])
    (hlater : ∀ effect ∈ effects.drop n, roots.Disjoint (blockBindings effect.body.deferred)) :
    ∃ t, execBlock host (deferredBlock (effects.take n)) s = some (.next, t) ∧
      ∀ x ∈ roots, v.locals.lookup x = t.locals.lookup x := by
  rw [← List.take_append_drop n effects, deferredBlock_append] at hrun
  obtain ⟨t, ht, hrest⟩ := exists_of_execBlock_append hrun
  refine ⟨t, ht, fun x hx => ?_⟩
  have hblocks : x ∉ blockBindings (deferredBlock (effects.drop n)) := by
    rw [mem_blockBindings_deferredBlock]
    rintro ⟨effect, heffect, hmem⟩
    exact hlater effect heffect hx hmem
  have hexprs : x ∉ argBindings messages := by
    rw [Expr.argBindings_eq, List.flatMap_eq_nil_iff.mpr hquiet]
    exact List.not_mem_nil
  calc v.locals.lookup x = u.locals.lookup x :=
        (evalArgs_spares hhost messages hexprs hmessages).lookup
    _ = t.locals.lookup x := (execBlock_spares hhost _ hblocks hrest).lookup

/-- The effects of a rule, each with its code. -/
def Rule.effectCodes (rule : Rule) (code : RuleCode) : List (Effect × EffectCode) :=
  rule.effects.zip code.effects

/-- What the messages of a rule read inside scoring. The messages are **kept apart**: each of them
reads local variables that the block of its own effect declares, and that no other block binds.
Creations are the exception, if their messages ask whether a joker is created. -/
structure Rule.MessagesApart (rule : Rule) (code : RuleCode) : Prop where
  ids : code.effects.map (·.id) = rule.effects.map (·.id)
  blocks : ∀ effect ∈ code.effects, effect.body.blocks = .beforeReturn effect.body.deferred
  own : ∀ effect ∈ code.effects, effect.body.messageLocals ⊆ blockDeclared effect.body.deferred
  apart {i j : ℕ} {p q : Effect × EffectCode} (hne : i ≠ j)
    (hi : (rule.effectCodes code)[i]? = some p) (hj : (rule.effectCodes code)[j]? = some q)
    (hnot : p.1.isOverwrittenBy q.1 = false) :
    p.2.body.messageRoots.Disjoint (blockBindings q.2.body.deferred)
  overwritten {i j : ℕ} {p q : Effect × EffectCode}
    (hi : (rule.effectCodes code)[i]? = some p) (hj : (rule.effectCodes code)[j]? = some q)
    (hover : p.1.isOverwrittenBy q.1 = true) :
    JokerCreation.created ∈ p.2.body.messageLocals ∧
      JokerCreation.created ∈ blockDeclared q.2.body.deferred
  /-- When all blocks have been run, and then the messages before it, a message reads what it would
  read right after the block of the `k`-th effect. This is its own effect, or else the last one
  that overwrites what it reads. -/
  reads {W : Type} {host : Host W} (hhost : host.KeepsLocals) {s u v : State W}
    {values : List Value} {i k : ℕ} {p : Effect × EffectCode}
    (hrun : execBlock host (deferredBlock code.effects) s = some (.next, u))
    (hmessages : evalArgs host (messageExprs (code.effects.take i)) u = some (values, v))
    (hi : (rule.effectCodes code)[i]? = some p) (hik : i ≤ k)
    (hlater : ∀ q ∈ (rule.effectCodes code).drop (k + 1), p.1.isOverwrittenBy q.1 = false) :
    ∃ t, execBlock host (deferredBlock (code.effects.take (k + 1))) s = some (.next, t) ∧
      ∀ x ∈ p.2.body.messageRoots, v.locals.lookup x = t.locals.lookup x

namespace Rule.Makes

variable {setting : Setting} {rule : Rule} {s t : Storage} {code : RuleCode}

/-- The effects and their codes are those of the turns. -/
theorem effectCodes_eq (h : rule.Makes setting s code t) :
    rule.effectCodes code =
      (rule.effectTurns setting s).map fun turn => (turn.item, turn.code) := by
  rw [effectCodes, h.effects, ← h.items, List.zip_map']

theorem exists_turn (h : rule.Makes setting s code t) {i : ℕ} {p : Effect × EffectCode}
    (hi : (rule.effectCodes code)[i]? = some p) :
    ∃ turn, (rule.effectTurns setting s)[i]? = some turn ∧ turn.item = p.1 ∧ turn.code = p.2 := by
  rw [h.effectCodes_eq, List.getElem?_map, Option.map_eq_some_iff] at hi
  obtain ⟨turn, hturn, rfl⟩ := hi
  exact ⟨turn, hturn, rfl, rfl⟩

/-- Of two effects of a rule, the variables of the drawn numbers are different. -/
theorem disjoint_slotLocals (hs : s.Reachable) {i j : ℕ} (hne : i ≠ j)
    {first second : Turn Effect EffectCode} (hi : (rule.effectTurns setting s)[i]? = some first)
    (hj : (rule.effectTurns setting s)[j]? = some second) :
    (first.item.slotLocals rule.trigger first.before).Disjoint
      (second.item.slotLocals rule.trigger second.before) := by
  have hconditions := (Rule.conditions_spec setting rule hs).1
  have hchained : Chained (rule.effectTurns setting s) :=
    chained_turns (Effect.orderly_compile setting rule.trigger) hconditions rule.effects
  -- Whichever effect is compiled first, the other one finds its names taken.
  have hordered : ∀ {i j : ℕ} {first second : Turn Effect EffectCode}, i < j →
      (rule.effectTurns setting s)[i]? = some first →
      (rule.effectTurns setting s)[j]? = some second →
      (first.item.slotLocals rule.trigger first.before).Disjoint
        (second.item.slotLocals rule.trigger second.before) := by
    intro i j first second hlt hi hj
    have hfirst := (Effect.turn_spec setting hconditions (List.mem_of_getElem? hi)).2.2
    have hsecond := (Effect.turn_spec setting hconditions (List.mem_of_getElem? hj)).2.2
    obtain ⟨hi', rfl⟩ := List.getElem?_eq_some_iff.mp hi
    obtain ⟨hj', rfl⟩ := List.getElem?_eq_some_iff.mp hj
    exact Effect.disjoint_slotLocals hfirst hsecond
      (List.pairwise_iff_getElem.mp hchained i j hi' hj' hlt)
  rcases lt_or_gt_of_ne hne with hlt | hgt
  · exact hordered hlt hi hj
  · exact (hordered hgt hj hi).symm

/-- **The messages of a rule inside scoring are kept apart.** -/
theorem messagesApart (h : rule.Makes setting s code t) (hs : s.Reachable)
    (hclass : rule.trigger.triggerClass = .scoring) : rule.MessagesApart code := by
  have hwrites : ∀ turn ∈ rule.effectTurns setting s,
      turn.item.Writes setting rule.trigger turn.before turn.code.body :=
    fun turn hturn => Effect.writes_of_mem_turns (Rule.conditions_spec setting rule hs).1 hturn
  have hturns : ∀ effect ∈ code.effects, ∃ turn ∈ rule.effectTurns setting s,
      turn.code = effect := by
    rw [h.effects]
    exact fun effect heffect => List.mem_map.mp heffect
  have hapart : ∀ {i j : ℕ} {p q : Effect × EffectCode}, i ≠ j →
      (rule.effectCodes code)[i]? = some p → (rule.effectCodes code)[j]? = some q →
      p.1.isOverwrittenBy q.1 = false →
      p.2.body.messageRoots.Disjoint (blockBindings q.2.body.deferred) := by
    intro i j p q hne hi hj hnot
    obtain ⟨first, hfirst, hp, hp'⟩ := h.exists_turn hi
    obtain ⟨second, hsecond, hq, hq'⟩ := h.exists_turn hj
    rw [← hp, ← hq] at hnot
    rw [← hp', ← hq']
    exact (hwrites first (List.mem_of_getElem? hfirst)).disjoint_messageRoots hclass
      (hwrites second (List.mem_of_getElem? hsecond))
      (disjoint_slotLocals hs hne hfirst hsecond) hnot
  refine
    { ids := ?_
      blocks := ?_
      own := ?_
      apart := hapart
      overwritten := ?_
      reads := ?_ }
  · rw [h.effects, ← h.items, List.map_map, List.map_map]
    exact List.map_congr_left fun turn hturn =>
      (Effect.turn_spec setting (Rule.conditions_spec setting rule hs).1 hturn).1
  · intro effect heffect
    obtain ⟨turn, hturn, rfl⟩ := hturns effect heffect
    exact (hwrites turn hturn).blocks_eq hclass
  · intro effect heffect
    obtain ⟨turn, hturn, rfl⟩ := hturns effect heffect
    exact (hwrites turn hturn).messageLocals_subset hclass
  · intro i j p q hi hj hover
    obtain ⟨first, hfirst, hp, hp'⟩ := h.exists_turn hi
    obtain ⟨second, hsecond, hq, hq'⟩ := h.exists_turn hj
    obtain ⟨hasks, hcreation⟩ := Bool.and_eq_true_iff.mp hover
    rw [← hp] at hasks
    rw [← hq] at hcreation
    rw [← hp', ← hq']
    exact ⟨(hwrites first (List.mem_of_getElem? hfirst)).created_mem_messageLocals hclass hasks,
      (hwrites second (List.mem_of_getElem? hsecond)).created_mem_declared hclass hcreation⟩
  · intro W host hhost s' u v values i k p hrun hmessages hi hik hlater
    refine exists_lookup_eq hhost (k + 1) hrun hmessages ?_ ?_
    · intro e he
      obtain ⟨effect, heffect, he⟩ := List.mem_flatMap.mp he
      obtain ⟨turn, hturn, rfl⟩ := hturns effect (List.mem_of_mem_take heffect)
      exact (hwrites turn hturn).bindings_message hclass e (Option.mem_toList.mp he)
    · have hcodes : code.effects = (rule.effectCodes code).map Prod.snd := by
        rw [h.effectCodes_eq, List.map_map, h.effects]
        rfl
      intro effect heffect
      rw [hcodes, ← List.map_drop] at heffect
      obtain ⟨q, hq, rfl⟩ := List.mem_map.mp heffect
      obtain ⟨m, hm⟩ := List.mem_iff_getElem?.mp hq
      rw [List.getElem?_drop] at hm
      exact hapart (by omega) hi hm (hlater q hq)

end Rule.Makes

/-! ### Messages of a mod -/

/-- **The messages of all rules inside scoring are kept apart.** -/
theorem compile_messagesApart {naming : Naming} {jokers : List Joker} {code : ModCode}
    (h : compile naming jokers = .ok code) :
    List.Forall₂ (fun joker jokerCode => List.Forall₂ (fun rule ruleCode =>
        rule.trigger.triggerClass = .scoring → rule.MessagesApart ruleCode)
      joker.fitting.rules jokerCode.rules) jokers code.jokers :=
  forall₂_fitting_codeFrom h fun _ _ _ _ _ _ hs hmakes hclass => hmakes.messagesApart hs hclass

/-- A rule with these effects, for when a hand is played. -/
def performance (effects : List Effect) : Rule where
  id := ⟨"perform"⟩
  trigger := .handPlayed
  effects := effects

/-- A joker with this rule alone. -/
def performer (effects : List Effect) : Joker where
  id := ⟨"joker"⟩
  key := ⟨"performer"⟩
  rules := [performance effects]

/-- Two changes by drawn numbers. -/
def gambles : List Effect :=
  [{ id := ⟨"first"⟩, kind := .editHand { value := .text "RANGE:1|2" } },
    { id := ⟨"second"⟩, kind := .editHand { value := .text "RANGE:3|4" } }]

/-- The start of a round, with the bounds of both numbers stored. -/
def gamblingStart : State Display :=
  let bounds : List (String × Value) :=
    [("hands_min", .number (.finite 1)), ("hands_max", .number (.finite 2)),
      ("hands2_min", .number (.finite 3)), ("hands2_max", .number (.finite 4))]
  { startOfRound with
    tables := Function.update startOfRound.tables 10
      { field := fun name => (bounds.lookup name).getD .nil } }

theorem smallGame_keepsLocals : smallGame.KeepsLocals where
  call {name args s v t} h := by
    simp only [smallGame] at h
    split at h
    case h_5 =>
      split at h
      · split at h <;> cases h
        rfl
      · cases h
    all_goals cases h <;> rfl
  method {receiver name args s v t} h := by
    simp only [smallGame] at h
    split at h <;> cases h
    rfl

/-- Does the next statement follow? -/
def Lua.Flow.isNext : Flow → Bool
  | .next => true
  | .leave | .ret _ => false

theorem exists_compile_gambles : ∃ code jokerCode ruleCode first second u,
    compile {} [performer gambles] = .ok code ∧ code.jokers = [jokerCode] ∧
      jokerCode.rules = [ruleCode] ∧ ruleCode.effects = [first, second] ∧
      first.body.messageLocals = ["hands_value"] ∧ second.body.messageLocals = ["hands2_value"] ∧
      execBlock smallGame (deferredBlock ruleCode.effects) gamblingStart = some (.next, u) := by
  have hrun : ((compile {} [performer gambles]).toOption.map fun code =>
      code.jokers.map fun joker => joker.rules.map fun rule =>
        (rule.effects.map (·.body.messageLocals),
          (execBlock smallGame (deferredBlock rule.effects) gamblingStart).any (·.1.isNext))) =
      some [[([["hands_value"], ["hands2_value"]], true)]] := by
    decide +kernel
  have hnodup : ∀ joker ∈ [performer gambles], joker.numberNames.Nodup := by decide
  obtain ⟨code, hcode⟩ := compile_of_nodup {} hnodup
  rw [hcode, Except.toOption, Option.map_some, Option.some.injEq] at hrun
  obtain ⟨jokerCode, hjokers, hrules⟩ := List.map_eq_singleton_iff.mp hrun
  obtain ⟨ruleCode, hrules, hparts⟩ := List.map_eq_singleton_iff.mp hrules
  obtain ⟨hlocals, hnext⟩ := Prod.mk.inj hparts
  obtain ⟨first, rest, heffects, hfirst, hrest⟩ := List.map_eq_cons_iff.mp hlocals
  obtain ⟨second, rfl, hsecond⟩ := List.map_eq_singleton_iff.mp hrest
  obtain ⟨⟨flow, u⟩, hu, hflow⟩ := (Option.any_eq_true _ _).mp hnext
  cases flow with
  | leave | ret => cases hflow
  | next =>
      exact ⟨code, jokerCode, ruleCode, first, second, u, hcode, hjokers, hrules, heffects, hfirst,
        hsecond, hu⟩

/-- Each message reads the number that was drawn for it, also when both have been drawn. -/
theorem compile_messagesApart_gambles : ∃ code jokerCode ruleCode first second,
    compile {} [performer gambles] = .ok code ∧ code.jokers = [jokerCode] ∧
      jokerCode.rules = [ruleCode] ∧ (performance gambles).MessagesApart ruleCode ∧
      ruleCode.effects = [first, second] ∧ first.body.messageLocals = ["hands_value"] ∧
      second.body.messageLocals = ["hands2_value"] ∧ ∃ t u,
        execBlock smallGame first.body.deferred gamblingStart = some (.next, t) ∧
        execBlock smallGame (first.body.deferred ++ second.body.deferred) gamblingStart =
          some (.next, u) ∧
        u.locals.lookup "hands_value" = t.locals.lookup "hands_value" := by
  obtain ⟨code, jokerCode, ruleCode, first, second, u, hcode, hjokers, hrules, heffects, hfirst,
    hsecond, hu⟩ := exists_compile_gambles
  have hjoker := compile_messagesApart hcode
  rw [hjokers, List.forall₂_cons, hrules] at hjoker
  have hkeeps : (performance gambles).MessagesApart ruleCode :=
    (List.forall₂_cons.mp hjoker.1).1 rfl
  have hpairs : (performance gambles).effectCodes ruleCode = gambles.zip [first, second] := by
    rw [Rule.effectCodes, heffects]
    rfl
  have hroot : "hands_value" ∈ first.body.messageRoots :=
    (EffectBody.mem_messageLocals.mp (hfirst ▸ List.mem_singleton_self _)).1
  obtain ⟨t, ht, hlookup⟩ := hkeeps.reads (i := 0) (k := 0) smallGame_keepsLocals hu rfl
    (by rw [hpairs]; rfl) le_rfl (by rw [hpairs]; exact fun _ _ => rfl)
  rw [heffects] at ht hu
  simp only [List.take_succ_cons, List.take_zero, deferredBlock_cons, deferredBlock_nil,
    List.append_nil] at ht hu
  exact ⟨code, jokerCode, ruleCode, first, second, hcode, hjokers, hrules, hkeeps, heffects, hfirst,
    hsecond, t, u, ht, hu, hlookup _ hroot⟩

/-! ### Two creations in one rule -/

/-- Two creations. -/
def twins : List Effect :=
  [{ id := ⟨"first"⟩, kind := .createJoker {} }, { id := ⟨"second"⟩, kind := .createJoker {} }]

theorem Bulletin.game_keepsLocals : Bulletin.game.KeepsLocals where
  call {name args s v t} h := by
    simp only [game] at h
    split at h
    · split at h <;> cases h
      rfl
    all_goals cases h <;> rfl
  method {receiver name args s v t} h := by
    simp only [game] at h
    split at h <;> cases h <;> rfl

/-- **A message tells the outcome of another effect.** Of two creations in one rule, only the first
one finds a free slot. Its message asks for a local variable that the block of the second creation
declares as well: right after its own block the variable says that there is a creation, but when
the messages are evaluated it says that there is none. -/
theorem exists_overwritten_twins : ∃ code jokerCode ruleCode first second,
    compile {} [performer twins] = .ok code ∧ code.jokers = [jokerCode] ∧
      jokerCode.rules = [ruleCode] ∧ ruleCode.trigger.triggerClass = .scoring ∧
      ruleCode.effects = [first, second] ∧
      JokerCreation.created ∈ first.body.messageLocals ∧
      JokerCreation.created ∈ blockDeclared second.body.deferred ∧
      Bulletin.game.KeepsLocals ∧ ∃ t u,
        execBlock Bulletin.game first.body.deferred (Bulletin.jokerless 1) = some (.next, t) ∧
        t.locals.lookup JokerCreation.created = some (.bool true) ∧
        execBlock Bulletin.game (first.body.deferred ++ second.body.deferred)
          (Bulletin.jokerless 1) = some (.next, u) ∧
        u.locals.lookup JokerCreation.created = some (.bool false) := by
  have hcompile : ∃ code jokerCode ruleCode first second,
      compile {} [performer twins] = .ok code ∧ code.jokers = [jokerCode] ∧
        jokerCode.rules = [ruleCode] ∧ ruleCode.trigger = .handPlayed ∧
        ruleCode.effects = [first, second] ∧
        first.body.deferred = JokerCreation.attempt {} {} ∧
        second.body.deferred = JokerCreation.attempt {} {} ∧
        first.body.messageLocals = [JokerCreation.created] :=
    ⟨_, _, _, _, _, rfl, rfl, rfl, rfl, rfl, rfl, rfl, by decide⟩
  obtain ⟨code, jokerCode, ruleCode, first, second, hcode, hjokers, hrules, htrigger, heffects,
    hfirst, hsecond, hmessage⟩ := hcompile
  refine ⟨code, jokerCode, ruleCode, first, second, hcode, hjokers, hrules, by rw [htrigger]; rfl,
    heffects, hmessage ▸ List.mem_singleton_self _, ?_, Bulletin.game_keepsLocals, ?_⟩
  · rw [hsecond, JokerCreation.blockDeclared_attempt]
    exact List.mem_singleton_self _
  · have hlocals := callbackLocals_creationLocals
    obtain ⟨t, fs, ht, hattempted⟩ := JokerCreation.exec_attempt Bulletin.game_slotLaws {} {}
      (Bulletin.jokerless_hasSlots 1) hlocals
    have hlocals' : CreationLocals t.locals := hattempted.locals ▸ hlocals.cons (by decide) _
    obtain ⟨u, gs, hu, hattempted'⟩ := JokerCreation.exec_attempt Bulletin.game_slotLaws {} {}
      hattempted.slots hlocals'
    refine ⟨t, u, hfirst ▸ ht, ?_, ?_, ?_⟩
    · rw [hattempted.locals]
      rfl
    · rw [hfirst, hsecond, execBlock_append_of_next ht, hu]
    · rw [hattempted'.locals]
      rfl

end JokerScript
