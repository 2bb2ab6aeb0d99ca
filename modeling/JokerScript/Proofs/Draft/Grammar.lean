import JokerScript.Proofs.Draft.Parameters

/-!
# The Grammar of Rules

A draft of a rule is accepted if its trigger, all of its conditions and all of its effects are
well formed. Few parameters can be at fault: the suits of a condition, the set of consumables, the
operation and the duration of an edit of the hands, the items of a discount, and the two suits
that are combined. If something is at fault, then the first offence is reported: the trigger goes
before the conditions, the conditions go before the effects, and all of them are judged in order.

## Main definitions

* `DraftCondition.WellFormed`, `DraftEffect.WellFormed`, `DraftRule.WellFormed` — the grammar.
* `DraftCondition.Offends`, `DraftEffect.Offends`, `DraftRule.FirstOffence` — its offences.
* `DraftRule.TypedAs` — what a valid rule keeps of its draft.

## Main results

* `DraftRule.conforms_to_grammar` — validation accepts just the grammar, and reports the first
  offence.
-/

namespace JokerScript

/-! ### Conditions -/

namespace DraftCondition

/-- A condition is **well formed** if its kind is known and it selects suits. -/
structure WellFormed (c : DraftCondition) : Prop where
  kind : ∃ subject : CardSubject, Tagged.tag subject = c.kind
  suits : ∃ suits, c.params.SelectsSuits suits

/-- What is wrong with a condition: its kind, or else its suits. -/
inductive Offends (c : DraftCondition) : CompileError → Prop
  | kind : (∀ subject : CardSubject, Tagged.tag subject ≠ c.kind) →
      Offends c (.unknownConditionKind c.kind)
  | suits {e : CompileError} : (∃ subject : CardSubject, Tagged.tag subject = c.kind) →
      c.params.SuitFault e → Offends c e

/-- What a valid condition keeps of its draft. -/
structure TypedAs (c : DraftCondition) (condition : Condition) : Prop where
  kind : Tagged.tag condition.subject = c.kind
  negate : condition.negate = c.negate
  suits : c.params.SelectsSuits condition.test.choice

theorem test_conforms (params : Params) (subject : CardSubject) :
    Conforms (test params subject) (∃ suits, params.SelectsSuits suits)
      (fun test => params.SelectsSuits test.choice) params.SuitFault :=
  (choice_conforms params).map fun _ hsuits => hsuits

/-- **Conditions** are judged by their grammar. -/
theorem validate_conforms (c : DraftCondition) :
    Conforms c.validate c.WellFormed c.TypedAs c.Offends := by
  rcases Tagged.ofTag?_cases CardSubject c.kind with ⟨subject, hkind, htag⟩ | ⟨hno, htag⟩
  · have hvalid : c.validate = (test c.params subject).map fun test =>
        { subject, test, negate := c.negate } := by
      simp only [validate, htag]
    rw [hvalid]
    refine ((test_conforms c.params subject).map (r := c.TypedAs) ?_).congr ?_
      (fun _ hresult => hresult) fun e => ?_
    · exact fun test hsuits => ⟨hkind, rfl, hsuits⟩
    · exact ⟨fun hsuits => ⟨⟨subject, hkind⟩, hsuits⟩, WellFormed.suits⟩
    · refine ⟨Offends.suits ⟨subject, hkind⟩, fun hoffends => ?_⟩
      cases hoffends with
      | kind hno => exact absurd hkind (hno subject)
      | suits _ hfault => exact hfault
  · refine conforms_of_total (.inr ⟨_, .kind hno⟩) ?_ ?_
    · rintro ⟨⟨subject, hkind⟩, -⟩
      exact absurd hkind (hno subject)
    · rintro e (_ | ⟨⟨subject, hkind⟩, -⟩)
      · simp only [validate, htag]
      · exact absurd hkind (hno subject)

end DraftCondition

namespace DraftGroup

/-- A group is well formed if its conditions are. -/
def WellFormed (g : DraftGroup) : Prop := ∀ c ∈ g.conditions, c.WellFormed

/-- What is wrong with a group is wrong with the first of its conditions that is not well
formed. -/
def Offends (g : DraftGroup) (e : CompileError) : Prop :=
  FirstFault DraftCondition.WellFormed DraftCondition.Offends g.conditions e

/-- What a valid group keeps of its draft. -/
structure TypedAs (g : DraftGroup) (group : ConditionGroup) : Prop where
  connective : group.connective = .or ↔ g.operator = some "or"
  conditions : List.Forall₂ DraftCondition.TypedAs g.conditions group.conditions

theorem connective_eq_or_iff (g : DraftGroup) : g.connective = .or ↔ g.operator = some "or" := by
  rw [connective]
  split
  · rename_i hor
    exact ⟨fun _ => hor, fun _ => rfl⟩
  · rename_i hor
    exact ⟨nofun, fun h => absurd h hor⟩

/-- **Groups** are judged by their grammar. -/
theorem validate_conforms (g : DraftGroup) :
    Conforms g.validate g.WellFormed g.TypedAs g.Offends :=
  (Conforms.mapM DraftCondition.validate_conforms g.conditions).map
    fun _ hconditions => ⟨g.connective_eq_or_iff, hconditions⟩

end DraftGroup

/-! ### Effects -/

namespace DraftEffect

open Params

/-- What is given for the set of a consumable. -/
def ConsumableType (params : Params) : Prop :=
  ¬ params.Given "consumable_type" ∨ params.Gives "consumable_type" "random" ∨
    ∃ set : ConsumableSet, params.Gives "consumable_type" (Tagged.tag set)

/-- Two different suits are given by their names. -/
def TwoSuits (params : Params) : Prop :=
  ∃ first second, params.NamesSuit "first_suit" first ∧ params.NamesSuit "second_suit" second ∧
    first ≠ second

/-- An effect is **well formed** if its kind is known, and what its kind needs is given. -/
@[mk_iff] structure WellFormed (e : DraftEffect) : Prop where
  kind : ∃ kind : EffectKind, kind.tag = e.kind
  destroyConsumable : e.kind = "destroy_consumable" → ConsumableType e.params
  editHand : e.kind = "edit_hand" →
    OptionalTag HandOperation e.params "operation" ∧ OptionalTag Duration e.params "duration"
  discountItems : e.kind = "discount_items" → OptionalTag DiscountTarget e.params "discount_type"
  combineSuits : e.kind = "combine_suits" → TwoSuits e.params

/-- What is wrong with the two suits: the first one, or else the second one, or that they are the
same. -/
inductive SuitsFault (params : Params) : CompileError → Prop
  | first {text : String} : params.NamesNoSuit "first_suit" text →
      SuitsFault params (unknownValue "first_suit" "suit" text)
  | second {suit : Suit} {text : String} : params.NamesSuit "first_suit" suit →
      params.NamesNoSuit "second_suit" text →
      SuitsFault params (unknownValue "second_suit" "suit" text)
  | same {suit : Suit} : params.NamesSuit "first_suit" suit →
      params.NamesSuit "second_suit" suit →
      SuitsFault params (.invalidParameter "second_suit" "must differ from first_suit")

/-- What is wrong with an effect. Of the two choices of an edit of the hands the operation goes
first. -/
@[mk_iff] inductive Offends (e : DraftEffect) : CompileError → Prop
  | kind : (∀ kind : EffectKind, kind.tag ≠ e.kind) → Offends e (.unknownEffectKind e.kind)
  | consumableType {text : String} : e.kind = "destroy_consumable" →
      WrongTag ConsumableSet e.params "consumable_type" text → text ≠ "random" →
      Offends e (unknownValue "consumable_type" "set" text)
  | operation {text : String} : e.kind = "edit_hand" →
      WrongTag HandOperation e.params "operation" text →
      Offends e (unknownValue "operation" "operation" text)
  | duration {text : String} : e.kind = "edit_hand" →
      OptionalTag HandOperation e.params "operation" →
      WrongTag Duration e.params "duration" text →
      Offends e (unknownValue "duration" "duration" text)
  | discountType {text : String} : e.kind = "discount_items" →
      WrongTag DiscountTarget e.params "discount_type" text →
      Offends e (unknownValue "discount_type" "item type" text)
  | suits {fault : CompileError} : e.kind = "combine_suits" → SuitsFault e.params fault →
      Offends e fault

/-- What is destroyed is what is given for it. -/
def Destroys (params : Params) (removal : ConsumableRemoval) : Prop :=
  match removal.target with
  | .any => ¬ params.Given "consumable_type" ∨ params.Gives "consumable_type" "random"
  | .ofSet set _ => params.Gives "consumable_type" (Tagged.tag set)

/-- The choices that can be at fault are made as they are given. -/
def Settles (params : Params) : EffectKind → Prop
  | .destroyConsumable removal => Destroys params removal
  | .editHand change => params.Chooses "operation" .add change.operation ∧
      params.Chooses "duration" .permanent change.duration
  | .discountItems discount => params.Chooses "discount_type" .planet discount.target
  | .combineSuits pair => params.NamesSuit "first_suit" pair.first ∧
      params.NamesSuit "second_suit" pair.second
  | .createJoker _ | .modifyBlind _ | .freeRerolls _ => True

/-- What a valid effect keeps of its draft. An empty message is none. -/
structure TypedAs (e : DraftEffect) (effect : Effect) : Prop where
  id : effect.id = ⟨e.id⟩
  kind : effect.kind.tag = e.kind
  choices : Settles e.params effect.kind
  message : ∀ m, effect.customMessage = some m ↔ e.customMessage = some m ∧ m ≠ ""

/-- The set of a consumable is read if it is left out, random or known. -/
theorem destroyConsumable_conforms (params : Params) :
    Conforms (destroyConsumable params) (ConsumableType params)
      (fun removal => Settles params (.destroyConsumable removal)) fun e =>
        ∃ text, WrongTag ConsumableSet params "consumable_type" text ∧ text ≠ "random" ∧
          e = unknownValue "consumable_type" "set" text := by
  rcases given_cases params "consumable_type" with ⟨hnone, htext⟩ | ⟨text, hgives, htext⟩
  · refine conforms_of_total (.inl (.inl hnone)) (fun _ => ⟨{ target := .any }, ?_, .inl hnone⟩) ?_
    · simp only [destroyConsumable, htext]
    · rintro _ ⟨text, hwrong, -⟩
      exact absurd ⟨text, hwrong.1⟩ hnone
  by_cases hrandom : text = "random"
  · subst hrandom
    refine conforms_of_total (.inl (.inr (.inl hgives)))
      (fun _ => ⟨{ target := .any }, ?_, .inr hgives⟩) ?_
    · simp only [destroyConsumable, htext, if_true]
    · rintro _ ⟨text, hwrong, hother, -⟩
      exact absurd (hwrong.1.unique hgives) hother
  rcases Tagged.ofTag?_cases ConsumableSet text with ⟨set, rfl, htag⟩ | ⟨hno, htag⟩
  · refine conforms_of_total (.inl (.inr (.inr ⟨set, hgives⟩))) (fun _ => ?_) ?_
    · simp only [destroyConsumable, htext, if_neg hrandom, htag]
      exact ⟨_, rfl, hgives⟩
    · rintro _ ⟨text, hwrong, -⟩
      exact absurd (hgives.unique hwrong.1) (hwrong.2 set)
  · refine conforms_of_total (.inr ⟨_, text, ⟨hgives, hno⟩, hrandom, rfl⟩) ?_ ?_
    · rintro (hnone | hother | ⟨set, hset⟩)
      · exact absurd ⟨text, hgives⟩ hnone
      · exact absurd (hgives.unique hother) hrandom
      · exact absurd (hset.unique hgives) (hno set)
    · rintro _ ⟨other, hother, -, rfl⟩
      obtain rfl := hgives.unique hother.1
      simp only [destroyConsumable, htext, if_neg hrandom, htag]

/-- The operation and the duration are read one after the other. -/
theorem editHand_conforms (params : Params) :
    Conforms (editHand params)
      (OptionalTag HandOperation params "operation" ∧ OptionalTag Duration params "duration")
      (fun change => Settles params (.editHand change)) fun e =>
        (∃ text, WrongTag HandOperation params "operation" text ∧
          e = unknownValue "operation" "operation" text) ∨
        OptionalTag HandOperation params "operation" ∧
          ∃ text, WrongTag Duration params "duration" text ∧
            e = unknownValue "duration" "duration" text := by
  have hduration (operation : HandOperation)
      (hoperation : params.Chooses "operation" .add operation) :=
    (strict_conforms params "duration" "duration" Duration.permanent).map
      (f := fun duration => ({ operation, duration, value := params.quantityOrOne "value" } :
        HandChange)) (r := fun change => Settles params (.editHand change))
      fun _ hduration => ⟨hoperation, hduration⟩
  refine ((strict_conforms params "operation" "operation" HandOperation.add).bind hduration).congr
    Iff.rfl ?_ fun _ => Iff.rfl
  rintro change ⟨-, -, hchange⟩
  exact hchange

theorem discountItems_conforms (params : Params) :
    Conforms (discountItems params) (OptionalTag DiscountTarget params "discount_type")
      (fun discount => Settles params (.discountItems discount)) fun e =>
        ∃ text, WrongTag DiscountTarget params "discount_type" text ∧
          e = unknownValue "discount_type" "item type" text :=
  (strict_conforms params "discount_type" "item type" DiscountTarget.planet).map
    fun _ htarget => htarget

/-- The two suits are read one after the other, and then compared. -/
theorem combineSuits_conforms (params : Params) :
    Conforms (combineSuits params) (TwoSuits params)
      (fun pair => Settles params (.combineSuits pair)) (SuitsFault params) := by
  refine conforms_of_total ?_ ?_ ?_
  · rcases (suit_conforms params "first_suit").total with ⟨a, ha⟩ | ⟨_, text, hno, -⟩
    · rcases (suit_conforms params "second_suit").total with ⟨b, hb⟩ | ⟨_, text, hno, -⟩
      · by_cases hab : a = b
        · exact .inr ⟨_, .same ha (hab ▸ hb)⟩
        · exact .inl ⟨a, b, ha, hb, hab⟩
      · exact .inr ⟨_, .second ha hno⟩
    · exact .inr ⟨_, .first hno⟩
  · rintro ⟨a, b, ha, hb, hab⟩
    refine ⟨{ first := a, second := b }, ?_, ha, hb⟩
    rw [combineSuits, suit_of_names ha, suit_of_names hb]
    exact if_neg hab
  · intro e hfault
    cases hfault with
    | first hno =>
        rw [combineSuits, suit_of_namesNo hno]
        rfl
    | second ha hno =>
        rw [combineSuits, suit_of_names ha, suit_of_namesNo hno]
        rfl
    | same ha hb =>
        rw [combineSuits, suit_of_names ha, suit_of_names hb]
        exact if_pos rfl

/-- The tags of the seven kinds. -/
theorem exists_kind_iff (tag : String) :
    (∃ kind : EffectKind, kind.tag = tag) ↔
      tag = "create_joker" ∨ tag = "destroy_consumable" ∨ tag = "edit_hand" ∨
        tag = "modify_blind_requirement" ∨ tag = "discount_items" ∨ tag = "free_rerolls" ∨
        tag = "combine_suits" := by
  constructor
  · rintro ⟨kind, rfl⟩
    cases kind <;> simp [EffectKind.tag]
  · rintro (rfl | rfl | rfl | rfl | rfl | rfl | rfl)
    · exact ⟨.createJoker {}, rfl⟩
    · exact ⟨.destroyConsumable {}, rfl⟩
    · exact ⟨.editHand { value := default }, rfl⟩
    · exact ⟨.modifyBlind { value := default }, rfl⟩
    · exact ⟨.discountItems {}, rfl⟩
    · exact ⟨.freeRerolls {}, rfl⟩
    · exact ⟨.combineSuits ⟨.hearts, .spades⟩, rfl⟩

/-- A kind that needs nothing is always accepted. -/
theorem conforms_of_free {e : DraftEffect} {kind : EffectKind} (hsettles : Settles e.params kind)
    (hkind : e.kind = "create_joker" ∨ e.kind = "modify_blind_requirement" ∨
      e.kind = "free_rerolls") :
    Conforms (.ok kind) e.WellFormed (Settles e.params) e.Offends := by
  refine (Conforms.ok kind).congr ?_ (fun _ hkind => hkind ▸ hsettles) fun error => ?_
  · rcases hkind with hkind | hkind | hkind <;> simp [wellFormed_iff, hkind, exists_kind_iff]
  · rcases hkind with hkind | hkind | hkind <;>
      simp [offends_iff, hkind, ← not_exists, exists_kind_iff]

/-- A kind that no effect has is not known. -/
theorem conforms_of_unknown {e : DraftEffect}
    (hunknown : ¬ ∃ kind : EffectKind, kind.tag = e.kind) :
    Conforms e.validKind e.WellFormed (Settles e.params) e.Offends := by
  have hvalid : e.validKind = .error (.unknownEffectKind e.kind) := by
    rw [exists_kind_iff] at hunknown
    rw [validKind]
    split
    case h_8 => rfl
    all_goals
      rename_i hkind
      simp [hkind] at hunknown
  refine conforms_of_total (.inr ⟨_, .kind (not_exists.mp hunknown)⟩)
    (fun hwell => absurd hwell.kind hunknown) fun error herror => ?_
  simp only [exists_kind_iff, not_or] at hunknown
  cases herror with
  | kind _ => exact hvalid
  | consumableType hkind | operation hkind | duration hkind | discountType hkind | suits hkind =>
      simp [hkind] at hunknown

/-- **Kinds** are judged by their grammar. -/
theorem validKind_conforms (e : DraftEffect) :
    Conforms e.validKind e.WellFormed (Settles e.params) e.Offends := by
  by_cases hknown : ∃ kind : EffectKind, kind.tag = e.kind
  case neg => exact conforms_of_unknown hknown
  rcases (exists_kind_iff e.kind).mp hknown with
    hkind | hkind | hkind | hkind | hkind | hkind | hkind
  all_goals simp only [validKind, hkind]
  · exact conforms_of_free trivial (.inl hkind)
  · refine ((destroyConsumable_conforms e.params).map fun _ h => h).congr ?_
      (fun _ h => h) fun error => ?_
    · simp [wellFormed_iff, hkind, exists_kind_iff]
    · simp [offends_iff, hkind, ← not_exists, exists_kind_iff]
  · refine ((editHand_conforms e.params).map fun _ h => h).congr ?_
      (fun _ h => h) fun error => ?_
    · simp [wellFormed_iff, hkind, exists_kind_iff]
    · simp [offends_iff, hkind, ← not_exists, exists_kind_iff]
  · exact conforms_of_free trivial (.inr (.inl hkind))
  · refine ((discountItems_conforms e.params).map fun _ h => h).congr ?_
      (fun _ h => h) fun error => ?_
    · simp [wellFormed_iff, hkind, exists_kind_iff]
    · simp [offends_iff, hkind, ← not_exists, exists_kind_iff]
  · exact conforms_of_free trivial (.inr (.inr hkind))
  · refine ((combineSuits_conforms e.params).map fun _ h => h).congr ?_
      (fun _ h => h) fun error => ?_
    · simp [wellFormed_iff, hkind, exists_kind_iff]
    · simp [offends_iff, hkind, ← not_exists, exists_kind_iff]

/-- **Effects** are judged by their grammar. -/
theorem validate_conforms (e : DraftEffect) :
    Conforms e.validate e.WellFormed e.TypedAs e.Offends := by
  refine ((validKind_conforms e).returning fun kind hvalid hchoices =>
    And.intro (tag_of_validKind hvalid) hchoices).map fun kind hkind =>
      ⟨rfl, hkind.1, hkind.2, fun m => ?_⟩
  simp [Option.filter_eq_some_iff]

end DraftEffect

/-! ### Rules -/

namespace DraftRule

/-- A trigger is known if it is left out, empty or one of the tags. -/
def TriggerKnown (r : DraftRule) : Prop :=
  r.trigger = none ∨ r.trigger = some "" ∨
    ∃ trigger : Trigger, r.trigger = some (Tagged.tag trigger)

/-- A trigger is unknown if it is a text that is not empty and none of the tags. -/
def TriggerUnknown (r : DraftRule) (tag : String) : Prop :=
  r.trigger = some tag ∧ tag ≠ "" ∧ ∀ trigger : Trigger, Tagged.tag trigger ≠ tag

/-- A rule is **well formed** if its trigger is known, and its conditions and effects are well
formed. -/
structure WellFormed (r : DraftRule) : Prop where
  trigger : r.TriggerKnown
  conditions : ∀ g ∈ r.groups, g.WellFormed
  effects : ∀ e ∈ r.effects, e.WellFormed

/-- **The first offence** of a rule. An offence of an effect is reported with the effect. -/
inductive FirstOffence (r : DraftRule) : RuleError → Prop
  | trigger {tag : String} : r.TriggerUnknown tag → FirstOffence r (none, .unknownTrigger tag)
  | condition {error : CompileError} : r.TriggerKnown →
      FirstFault DraftGroup.WellFormed DraftGroup.Offends r.groups error →
      FirstOffence r (none, error)
  | effect {error : RuleError} : r.TriggerKnown → (∀ g ∈ r.groups, g.WellFormed) →
      FirstFault DraftEffect.WellFormed
        (fun e error => error.1 = some ⟨e.id⟩ ∧ e.Offends error.2) r.effects error →
      FirstOffence r error

/-- What a valid rule keeps of its draft. -/
structure TypedAs (r : DraftRule) (rule : Rule) : Prop where
  id : rule.id = ⟨r.id⟩
  trigger : Tagged.tag rule.trigger = r.triggerTag
  groups : List.Forall₂ DraftGroup.TypedAs r.groups rule.groups
  effects : List.Forall₂ DraftEffect.TypedAs r.effects rule.effects

/-- Without a trigger a rule fires when a hand is played, and otherwise its tag is read. -/
theorem trigger_cases (r : DraftRule) :
    (r.trigger = none ∨ r.trigger = some "") ∧ r.validTrigger = .ok .handPlayed ∨
      ∃ tag, r.trigger = some tag ∧ tag ≠ "" ∧ r.validTrigger = Trigger.ofTag tag := by
  rw [validTrigger]
  cases r.trigger with
  | none => exact .inl ⟨.inl rfl, rfl⟩
  | some tag =>
      by_cases hempty : tag = ""
      · subst hempty
        exact .inl ⟨.inr rfl, rfl⟩
      · exact .inr ⟨tag, rfl, hempty, if_neg (by simpa using hempty)⟩

/-- **Triggers** are judged by their grammar. -/
theorem validTrigger_conforms (r : DraftRule) :
    Conforms r.validTrigger r.TriggerKnown (fun trigger => Tagged.tag trigger = r.triggerTag)
      fun e => ∃ tag, r.TriggerUnknown tag ∧ e = .unknownTrigger tag := by
  rcases r.trigger_cases with ⟨hnone, hvalid⟩ | ⟨tag, htrigger, hempty, hvalid⟩
  · refine conforms_of_total (.inl (hnone.imp_right .inl))
      (fun _ => ⟨_, hvalid, tag_of_validTrigger hvalid⟩) ?_
    rintro _ ⟨tag, ⟨htrigger, hempty, -⟩, -⟩
    rcases hnone with hnone | hnone
    · cases htrigger.symm.trans hnone
    · exact absurd (Option.some.inj (htrigger.symm.trans hnone)) hempty
  have hsame {other : String} (hother : r.trigger = some other) : tag = other :=
    Option.some.inj (htrigger.symm.trans hother)
  rcases Tagged.ofTag?_cases Trigger tag with ⟨trigger, rfl, htag⟩ | ⟨hno, htag⟩
  · have hok : r.validTrigger = .ok trigger := by rw [hvalid, Trigger.ofTag, htag]
    refine conforms_of_total (.inl (.inr (.inr ⟨trigger, htrigger⟩)))
      (fun _ => ⟨_, hok, tag_of_validTrigger hok⟩) ?_
    rintro _ ⟨other, hunknown, -⟩
    exact absurd (hsame hunknown.1) (hunknown.2.2 trigger)
  · refine conforms_of_total (.inr ⟨_, tag, ⟨htrigger, hempty, hno⟩, rfl⟩) ?_ ?_
    · rintro (hnone | hsome | ⟨trigger, hsome⟩)
      · cases htrigger.symm.trans hnone
      · exact absurd (hsame hsome) hempty
      · exact absurd (hsame hsome).symm (hno trigger)
    · rintro _ ⟨other, hunknown, rfl⟩
      rw [hvalid, Trigger.ofTag, htag, hsame hunknown.1]

/-- **Validation** accepts just the well-formed rules, keeps what it should of them, and reports
the first offence of all others. -/
theorem conforms_to_grammar (r : DraftRule) :
    Conforms r.validate r.WellFormed r.TypedAs r.FirstOffence := by
  have htriggers := r.validTrigger_conforms.mapError fun e => ((none, e) : RuleError)
  have hgroups := Conforms.mapM (fun g : DraftGroup =>
    g.validate_conforms.mapError fun e => ((none, e) : RuleError)) r.groups
  have heffects := Conforms.mapM (fun e : DraftEffect =>
    e.validate_conforms.mapError fun error => ((some ⟨e.id⟩, error) : RuleError)) r.effects
  have hrule (trigger : Trigger) (htrigger : Tagged.tag trigger = r.triggerTag)
      (groups : List ConditionGroup) (hg : List.Forall₂ DraftGroup.TypedAs r.groups groups) :=
    heffects.map (f := fun effects => ({ id := ⟨r.id⟩, trigger, groups, effects } : Rule))
      (r := r.TypedAs) fun effects he => ⟨rfl, htrigger, hg, he⟩
  refine (htriggers.bind fun trigger htrigger => hgroups.bind fun groups hg =>
    hrule trigger htrigger groups hg).congr ?_ ?_ fun error => ?_
  · exact ⟨fun ⟨ht, hg, he⟩ => ⟨ht, hg, he⟩, fun h => ⟨h.trigger, h.conditions, h.effects⟩⟩
  · rintro rule ⟨-, -, -, -, htyped⟩
    exact htyped
  · constructor
    · rintro (⟨_, ⟨tag, hunknown, rfl⟩, rfl⟩ | ⟨htrigger, hfault | ⟨hgroups, hfault⟩⟩)
      · exact .trigger hunknown
      · obtain ⟨before, g, after, hsplit, hbefore, e, he, rfl⟩ := hfault
        exact .condition htrigger ⟨before, g, after, hsplit, hbefore, he⟩
      · obtain ⟨before, e, after, hsplit, hbefore, fault, hfault, rfl⟩ := hfault
        exact .effect htrigger hgroups ⟨before, e, after, hsplit, hbefore, rfl, hfault⟩
    · intro hoffence
      cases hoffence with
      | trigger hunknown => exact .inl ⟨_, ⟨_, hunknown, rfl⟩, rfl⟩
      | condition htrigger hfault =>
          obtain ⟨before, g, after, hsplit, hbefore, he⟩ := hfault
          exact .inr ⟨htrigger, .inl ⟨before, g, after, hsplit, hbefore, _, he, rfl⟩⟩
      | @effect error htrigger hgroups hfault =>
          obtain ⟨before, e, after, hsplit, hbefore, hid, he⟩ := hfault
          exact .inr ⟨htrigger, .inr ⟨hgroups, before, e, after, hsplit, hbefore, _, he,
            Prod.ext hid.symm rfl⟩⟩

/-- A rule with two offences. The suit of its second condition is given as a number, which counts
as none, and the operation of its effect is unknown. -/
def offendingRule : DraftRule where
  id := "rule"
  trigger := some ""
  groups :=
    [{ conditions :=
        [{ kind := "card_suit", params := [("specific_suit", .str "anything")] },
          { kind := "card_suit"
            params := [("suit_type", .null), ("specific_suit", .int 7)] }] }]
  effects := [{ id := "hands", kind := "edit_hand", params := [("operation", .str "explode")] }]

/-- The missing suit is reported, since conditions go before effects. -/
theorem firstOffence_offendingRule :
    offendingRule.FirstOffence (none, .invalidParameter "specific_suit" "missing") ∧
      ¬ offendingRule.WellFormed := by
  have herror : offendingRule.validate =
      .error (none, .invalidParameter "specific_suit" "missing") :=
    rfl
  have hconforms := conforms_to_grammar offendingRule
  refine ⟨(hconforms.fails _).mp herror, fun hwell => ?_⟩
  obtain ⟨rule, hrule⟩ := hconforms.succeeds.mpr hwell
  cases herror.symm.trans hrule

end DraftRule

end JokerScript
