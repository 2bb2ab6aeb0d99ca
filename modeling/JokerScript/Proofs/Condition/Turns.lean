import JokerScript.Proofs.Compile.Turns
import JokerScript.Proofs.Condition.Rule
import JokerScript.Proofs.Lua.Joined
import JokerScript.Proofs.Resolve.Vocabulary

/-!
# Turns of Conditions

The conditions of a rule are compiled in turn, group by group, and none of them fails. What
a condition asks the storage for is the name of a random **count**: the two bounds of the
range are declared under it. Its code looks at the cards, and reads declared variables only.

## Main definitions

* `SuitTest.countBounds?`, `Condition.slotRequest?`, `Condition.countVars` — the bounds of a
  count, and what is declared for it.
* `SuitTest.written`, `Condition.written` — the code of tests and conditions, written out.
* `Rule.conditionTurns` — the turns of the conditions of a rule.

## Main results

* `Condition.run_code` — the turn of a condition.
* `Rule.run_conditionCode?` — the code of all conditions.
-/

namespace JokerScript

open Lua

/-! ### Counts -/

/-- The bounds of the range that the count of a test is drawn from, if its code draws one. -/
def SuitTest.countBounds? (trigger : Trigger) (t : SuitTest) : Option (Number × Number) :=
  match trigger.singleCard?, t.quantifier.isCounting, t.countSource with
  | none, true, .range min max => some (min, max)
  | _, _, _ => none

namespace Condition

/-- What the code of a condition asks the storage for. -/
def slotRequest? (trigger : Trigger) (c : Condition) : Option SlotRequest :=
  (c.test.countBounds? trigger).map fun _ => ⟨"count", valueSuffixes⟩

/-- The variables that the code of a condition declares: the bounds of its count. -/
def countVars (trigger : Trigger) (s : Storage) (c : Condition) : List StoredVariable :=
  match c.test.countBounds? trigger with
  | none => []
  | some (min, max) =>
    let name := s.claimedName "count" valueSuffixes
    [⟨Resolved.minName name, min⟩, ⟨Resolved.maxName name, max⟩]

/-- The storage serves the request of a condition. -/
theorem serves (trigger : Trigger) (s : Storage) (c : Condition) :
    s.Serves (c.slotRequest? trigger) (c.countVars trigger s) (c.storageAfter trigger s) := by
  rw [slotRequest?, countVars, storageAfter, SuitTest.storageAfter, SuitTest.countBounds?]
  cases trigger.singleCard? with
  | some source => exact .nothing
  | none =>
      cases c.test.quantifier.isCounting with
      | false => exact .nothing
      | true =>
          cases c.test.countSource with
          | range min max =>
              refine .slot ?_ (by simp [minName_ne_maxName])
              simp only [List.forall_mem_cons, List.not_mem_nil, false_implies, implies_true,
                and_true]
              exact ⟨Storage.mem_forms.mpr ⟨"_min", by decide, rfl⟩,
                Storage.mem_forms.mpr ⟨"_max", by decide, rfl⟩⟩
          | gameVar | named | number | unresolved => exact .nothing

end Condition

/-! ### Code of conditions -/

section Uses

variable {readable records : List String}

/-- The suit that the game keeps for a suit variable is not in the storage of the joker. -/
theorem SuitReading.usesAll_storedSuit (name : String) :
    (SuitReading.storedSuit name).UsesAll (PathUse.KeepsTo readable records) := by
  rw [SuitReading.storedSuit, Expr.usesAll_path]
  refine PathUse.keepsTo_elsewhere (storedName?_of_head (c := 'G') ?_ (by decide)) false
  simp [String.toList_append]

theorem SuitReading.usesAll_check {e : Expr} (he : e.UsesAll (PathUse.KeepsTo readable records))
    (joker : Joker) (choice : SuitChoice) :
    ((SuitReading.ofChoice joker choice).check e).UsesAll (PathUse.KeepsTo readable records) := by
  have hfixed : ∀ suits : List Suit,
      ((SuitReading.fixed suits).check e).UsesAll (PathUse.KeepsTo readable records) := by
    intro suits
    refine Expr.usesAll_joined (Expr.usesAll_bool false) fun test htest => ?_
    obtain ⟨suit, -, rfl⟩ := List.mem_map.mp htest
    simp [SuitReading.isSuit, he]
  cases choice with
  | coloured colour => exact hfixed colour.suits
  | named name =>
      rw [SuitReading.ofChoice]
      split
      · simp [SuitReading.check, SuitReading.isSuit, he, SuitReading.usesAll_storedSuit]
      · exact hfixed _

theorem SuitTest.usesAll_quantified {quantifier : Quantifier} {count : Expr} {cards : String}
    (hcards : cards ∈ vocabulary)
    (hcount : quantifier.isCounting = true → count.UsesAll (PathUse.KeepsTo readable records))
    (joker : Joker) (choice : SuitChoice) :
    (SuitTest.quantified quantifier cards (SuitReading.ofChoice joker choice) count).UsesAll
      (PathUse.KeepsTo readable records) := by
  have hword := keepsTo_vocabulary readable records
  have hcheck := SuitReading.usesAll_check (e := .path "c")
    ((Expr.usesAll_path "c").mpr (hword "c" (by decide) false)) joker choice
  cases quantifier with
  | atLeastOne =>
      simp +decide [quantified, forEach, hcheck, hword _ _ _, hcards]
  | all =>
      simp +decide [quantified, forEach, Expr.negation, Expr.and, Expr.gt, Expr.length, hcheck,
        hword _ _ _, hcards]
  | exactly | atLeast | atMost =>
      simp +decide [quantified, forEach, countTest, Expr.and, Expr.gt, Expr.le, Expr.ge,
        Expr.equals, Expr.plus, hcheck, hcount rfl, hword _ _ _, hcards]

theorem SuitTest.usesAll_anyRemoved (joker : Joker) (choice : SuitChoice) :
    (SuitTest.anyRemoved (SuitReading.ofChoice joker choice)).UsesAll
      (PathUse.KeepsTo readable records) := by
  have hword := keepsTo_vocabulary readable records
  have hcheck := SuitReading.usesAll_check (e := .path "removed_card")
    ((Expr.usesAll_path _).mpr (hword _ (by decide) false)) joker choice
  simp +decide [anyRemoved, hcheck, hword _ _ _]

theorem SuitTest.candidates_mem_vocabulary (subject : CardSubject) (scope : HandScope)
    (trigger : Trigger) : SuitTest.candidates subject scope trigger ∈ vocabulary := by
  rw [candidates]
  split <;> decide

end Uses

/-- Inside an expression, a quantity declares just the variables that it needs. -/
theorem declared_storageAfter_inline (naming : Naming) (base owner : String) (s : Storage)
    (source : Source) :
    (source.storageAfter base s).declared = s.declared ++ (source.settled naming
      (.inline base owner) s (Source.inlineName base s)).configVariables := by
  by_cases hrange : ∃ min max, source = .range min max
  · obtain ⟨min, max, rfl⟩ := hrange
    exact Storage.declared_addingAll _ _
  · push Not at hrange
    rw [configVariables_settled_inline naming s base owner _ hrange, List.append_nil]
    cases source with
    | range min max => exact absurd rfl (hrange min max)
    | gameVar | named | number | unresolved => rfl

namespace SuitTest

variable (setting : Setting) (rule : RuleId) (trigger : Trigger) (subject : CardSubject)

/-- The code of a test, written out around the expression of its count. -/
def written (count : Expr) (t : SuitTest) : Expr :=
  let suits := SuitReading.ofChoice setting.joker t.choice
  match trigger.singleCard? with
  | some .otherCard => suits.check (.path "context.other_card")
  | some .removed => anyRemoved suits
  | none => quantified t.quantifier (candidates subject t.scope trigger) suits count

/-- The expression that the code of a test compares with. A quantifier that does not count
compares with nothing, and the code is written around a one. -/
def writtenCount (s : Storage) (t : SuitTest) : Expr :=
  if t.quantifier.isCounting then
    (t.countSource.settled setting.naming (.inline "count" rule.text) s
      (Source.inlineName "count" s)).expr
  else .one

/-- **The code that is made is the code that is written out.** -/
theorem run_code (t : SuitTest) {s : Storage} (hs : s.Reachable) :
    (t.code setting rule trigger subject).run s =
      (.ok (t.written setting trigger subject (t.writtenCount setting rule s)),
        t.storageAfter trigger s) := by
  cases hsource : trigger.singleCard? with
  | some source =>
      have hafter : t.storageAfter trigger s = s := by
        rw [storageAfter, if_neg (by simp [hsource])]
      rw [hafter]
      cases source <;> rw [code, hsource, written, hsource] <;> rfl
  | none =>
      obtain ⟨count, hrun, hcount⟩ := run_countCode setting rule t hs
      have hafter : t.storageAfter trigger s =
          if t.quantifier.isCounting then t.countSource.storageAfter "count" s else s := by
        rw [storageAfter]
        simp only [hsource, true_and]
      rw [code, hsource, written, hsource, hafter]
      refine (Resolver.run_bind_of_ok _ hrun).trans ?_
      cases hcounting : t.quantifier.isCounting with
      | true =>
          rw [hcount hcounting, writtenCount, hcounting]
          rfl
      | false =>
          rw [countCode, hcounting] at hrun
          obtain rfl := Except.ok.inj (Prod.mk.inj hrun).1
          rw [writtenCount, hcounting]
          rfl

/-- The code of a test reads declared variables only. -/
theorem usesAll_written (t : SuitTest) (s : Storage) :
    (t.written setting trigger subject (t.writtenCount setting rule s)).UsesAll
      (PathUse.KeepsTo (t.storageAfter trigger s).names []) := by
  rw [written]
  cases hsource : trigger.singleCard? with
  | some source =>
      cases source with
      | otherCard =>
          refine SuitReading.usesAll_check ?_ _ _
          exact (Expr.usesAll_path _).mpr (keepsTo_vocabulary _ _ _ (by decide) false)
      | removed => exact usesAll_anyRemoved _ _
  | none =>
      refine usesAll_quantified (candidates_mem_vocabulary _ _ _) (fun hcounting => ?_) _ _
      rw [writtenCount, if_pos hcounting, storageAfter, if_pos ⟨hsource, hcounting⟩]
      refine usesAll_settled (keepsTo_vocabulary _ _) _ _ _ _ _ fun name hname => ?_
      refine PathUse.keepsTo_read (reads_settled ?_ ?_ name hname)
      · exact List.map_subset _ (declared_subset_storageAfter "count" s t.countSource)
      · rw [Storage.names, declared_storageAfter_inline setting.naming "count" rule.text]
        exact fun v hv => List.mem_map_of_mem (List.mem_append_right _ hv)

end SuitTest

/-! ### Turns -/

section Turns

variable (setting : Setting) (rule : RuleId) (trigger : Trigger) {s : Storage}

/-- The code of a condition, written out. -/
def Condition.written (s : Storage) (c : Condition) : Expr :=
  let e := c.test.written setting trigger c.subject (c.test.writtenCount setting rule s)
  if c.negate then e.negation else e

/-- **The turn of a condition** does not fail. -/
theorem Condition.run_code (c : Condition) (hs : s.Reachable) :
    (c.code setting rule trigger).run s =
      (.ok (c.written setting rule trigger s), c.storageAfter trigger s) := by
  rw [code, Resolver.run_bind_of_ok _ (c.test.run_code setting rule trigger c.subject hs)]
  rfl

/-- The code of a condition reads declared variables only. -/
theorem Condition.usesAll_written (c : Condition) (s : Storage) :
    (c.written setting rule trigger s).UsesAll
      (PathUse.KeepsTo (c.storageAfter trigger s).names []) := by
  have huses := c.test.usesAll_written setting rule trigger c.subject s
  rw [written]
  split
  · exact (Expr.usesAll_unary .not _).mpr huses
  · exact huses

theorem Condition.orderly_code : Orderly (Condition.code setting rule trigger) := by
  intro s t c e hs hrun
  rw [c.run_code setting rule trigger hs] at hrun
  obtain ⟨-, rfl⟩ := Prod.mk.inj hrun
  exact ⟨(c.serves trigger s).reachable hs, (c.serves trigger s).extended⟩

/-- What is known of a turn of a condition: the storage served its request, and its code is
written out. -/
theorem Condition.turn_spec {cs : List Condition} (hs : s.Reachable) {turn : Turn Condition Expr}
    (h : turn ∈ turns (Condition.code setting rule trigger) s cs) :
    turn.before.Serves (turn.item.slotRequest? trigger) (turn.item.countVars trigger turn.before)
        turn.after ∧
      turn.code = turn.item.written setting rule trigger turn.before ∧
      turn.code.UsesAll (PathUse.KeepsTo turn.after.names []) := by
  have hbefore := (mem_turns_between (orderly_code setting rule trigger) hs h).1
  have hrun := turn.item.run_code setting rule trigger hbefore
  obtain ⟨hcode, hafter⟩ := Prod.mk.inj ((run_of_mem_turns h).2.symm.trans hrun)
  rw [Except.ok.inj hcode, hafter]
  exact ⟨turn.item.serves trigger turn.before, rfl, turn.item.usesAll_written _ _ _ turn.before⟩

/-- No condition fails, so each of them has its turn, and the turns are the run. -/
theorem Condition.run_mapM_code (cs : List Condition) (hs : s.Reachable) :
    (cs.mapM (Condition.code setting rule trigger)).run s =
        (.ok ((turns (Condition.code setting rule trigger) s cs).map (·.code)),
          lastStorage s (turns (Condition.code setting rule trigger) s cs)) ∧
      (turns (Condition.code setting rule trigger) s cs).map (·.item) = cs :=
  run_mapM_turns (orderly_code setting rule trigger)
    (fun c _ _ hs => ⟨_, _, c.run_code setting rule trigger hs⟩) hs

/-- The turns of the conditions of a group make up the run of the group, and the code of the
group joins theirs. -/
theorem ConditionGroup.run_code? (g : ConditionGroup) (hs : s.Reachable) :
    ∃ code? t, t = lastStorage s (turns (Condition.code setting rule trigger) s g.conditions) ∧
      (g.code? setting rule trigger).run s = (.ok code?, t) ∧
      JoinsTo ((turns (Condition.code setting rule trigger) s g.conditions).map (·.code))
        code? := by
  rw [code?]
  split
  · rename_i hempty
    rw [List.isEmpty_iff.mp hempty]
    exact ⟨none, s, rfl, rfl, .none⟩
  · rename_i hne
    obtain ⟨hrun, hitems⟩ := Condition.run_mapM_code setting rule trigger g.conditions hs
    refine ⟨_, _, rfl, Resolver.run_bind_of_ok _ hrun, .some ?_⟩
    have hcodes :
        (turns (Condition.code setting rule trigger) s g.conditions).map (·.code) ≠ [] := by
      intro hnil
      rw [List.map_eq_nil_iff.mp hnil] at hitems
      exact hne (List.isEmpty_iff.mpr hitems.symm)
    cases g.connective with
    | and => exact Joins.joined_self .and _ hcodes
    | or => exact Joins.joined_self .or _ hcodes

theorem ConditionGroup.run_mapM_code? (gs : List ConditionGroup) (hs : s.Reachable) :
    ∃ codes t, t = lastStorage s (turns (Condition.code setting rule trigger) s
        (gs.flatMap (·.conditions))) ∧
      (gs.mapM (ConditionGroup.code? setting rule trigger)).run s = (.ok codes, t) ∧
      ∃ ess, List.Forall₂ JoinsTo ess codes ∧ ess.flatten =
        (turns (Condition.code setting rule trigger) s
          (gs.flatMap (·.conditions))).map (·.code) := by
  induction gs generalizing s with
  | nil => exact ⟨[], s, rfl, rfl, [], .nil, rfl⟩
  | cons g gs ih =>
      obtain ⟨code?, t, ht, hrun, hjoins⟩ := g.run_code? setting rule trigger hs
      have hreachable : t.Reachable :=
        ht ▸ (lastStorage_spec (Condition.orderly_code setting rule trigger) hs g.conditions).1
      obtain ⟨codes, u, hu, hrest, ess, hess, hflatten⟩ := ih hreachable
      refine ⟨code? :: codes, u, ?_, ?_, _, .cons hjoins hess, ?_⟩
      · rw [List.flatMap_cons, turns_append, lastStorage_append, ← ht, hu]
      · rw [List.mapM_cons, Resolver.run_bind_of_ok _ hrun, Resolver.run_bind_of_ok _ hrest]
        rfl
      · rw [List.flatten_cons, hflatten, List.flatMap_cons, turns_append, List.map_append, ht]

end Turns

namespace Rule

/-- The conditions of a rule, group by group. -/
def conditions (rule : Rule) : List Condition := rule.groups.flatMap (·.conditions)

/-- The turns of the conditions of a rule. -/
def conditionTurns (setting : Setting) (s : Storage) (rule : Rule) : List (Turn Condition Expr) :=
  turns (Condition.code setting rule.id rule.trigger) s rule.conditions

/-- No condition fails, so each of them has its turn. -/
theorem map_item_conditionTurns (setting : Setting) (rule : Rule) {s : Storage}
    (hs : s.Reachable) : (rule.conditionTurns setting s).map (·.item) = rule.conditions :=
  (Condition.run_mapM_code setting rule.id rule.trigger rule.conditions hs).2

/-- **The code of the conditions of a rule** is made in the turns of the conditions, and joins
what they make. It reads declared variables only. -/
theorem run_conditionCode? (setting : Setting) (rule : Rule) {s : Storage} (hs : s.Reachable) :
    ∃ code? t, t = lastStorage s (rule.conditionTurns setting s) ∧
      (rule.conditionCode? setting).run s = (.ok code?, t) ∧
      JoinsTo ((rule.conditionTurns setting s).map (·.code)) code? ∧
      ∀ e ∈ code?, e.UsesAll (PathUse.KeepsTo t.names []) := by
  obtain ⟨codes, t, ht, hrun, ess, hess, hflatten⟩ :=
    ConditionGroup.run_mapM_code? setting rule.id rule.trigger rule.groups hs
  have hjoins := JoinsTo.allOf hess
  rw [hflatten] at hjoins
  refine ⟨_, t, ht, by rw [conditionCode?, Resolver.run_bind_of_ok _ hrun]; rfl, hjoins, ?_⟩
  refine hjoins.usesAll.mpr fun e he => ?_
  obtain ⟨turn, hturn, rfl⟩ := List.mem_map.mp he
  have horderly := Condition.orderly_code setting rule.id rule.trigger
  have hlast := (mem_turns_between horderly hs hturn).2.2
  have huses := (Condition.turn_spec setting rule.id rule.trigger hs hturn).2.2
  exact huses.mono (ht ▸ hlast.names_subset) (List.Subset.refl [])

end Rule

end JokerScript
