import JokerScript.Joker.Json
import JokerScript.Proofs.Json.Arranged

/-!
# Jokers Read Back

A joker whose numbers are finite is read back from its JSON form, and from the text of that form.
Every part of a joker is: a bare number or text, an alternative with or without data, a record
with members that are always written, and a list of parts. The parts are followed from the leaves
up to the joker, under any rearrangement of members, because the members of a text are sorted
where they are read.

## Main definitions

* `Joker.numbers` — the numbers that a joker holds, and the same for its parts.

## Main results

* `Joker.toJson_roundTrip` — a joker is read back from its JSON form and from the text of it.
-/

namespace JokerScript

open Json (Rearranges)

variable {r : Json → Json}

/-! ### Numbers of a joker -/

/-- The numbers of a quantity. -/
def Quantity.numbers : Quantity → List Number
  | number n => [n]
  | text _ => []

/-- The numbers of a test of suits. -/
def SuitTest.numbers (t : SuitTest) : List Number := t.count.elim [] Quantity.numbers

/-- The numbers of a group of conditions. -/
def ConditionGroup.numbers (g : ConditionGroup) : List Number :=
  g.conditions.flatMap fun c => c.test.numbers

/-- The numbers among the parameters of an effect. -/
def EffectKind.numbers : EffectKind → List Number
  | editHand params => params.value.numbers
  | modifyBlind params => params.value.numbers
  | discountItems params => [params.amount]
  | freeRerolls params => [params.amount]
  | createJoker _ | destroyConsumable _ | combineSuits _ => []

/-- The numbers of a rule. -/
def Rule.numbers (rule : Rule) : List Number :=
  rule.groups.flatMap ConditionGroup.numbers ++ rule.effects.flatMap fun e => e.kind.numbers

/-- **The numbers that a joker holds**, in its rules and its variables. -/
def Joker.numbers (joker : Joker) : List Number :=
  joker.rules.flatMap Rule.numbers ++ joker.vars.map Variable.initial

/-! ### Leaves -/

section

variable (hr : Rearranges r)

include hr

theorem Number.number?_arranged {n : Number} (h : n.isFinite = true) :
    (r n.toJson).number? = some n := by
  rw [Number.toJson, if_pos h, hr.float]
  rfl

theorem Quantity.ofJson?_arranged (q : Quantity) (h : ∀ n ∈ q.numbers, n.isFinite = true) :
    Quantity.ofJson? (r q.toJson) = some q := by
  cases q with
  | number n =>
      have hfinite : n.isFinite = true := h n (List.mem_singleton.mpr rfl)
      simp [Quantity.toJson, Quantity.ofJson?, Number.toJson, hfinite, hr.float, Json.number?]
  | text s => simp [Quantity.toJson, Quantity.ofJson?, hr.str]

/-- An optional quantity is not taken for an absent one. -/
theorem Quantity.nullable_arranged (q : Option Quantity)
    (h : ∀ n ∈ q.elim [] Quantity.numbers, n.isFinite = true) :
    Json.nullable Quantity.ofJson? (r (Json.ofOption Quantity.toJson q)) = some q := by
  have hread : ∀ x ∈ q, Quantity.ofJson? (r x.toJson) = some x := by
    rintro x rfl
    exact Quantity.ofJson?_arranged hr x h
  refine hr.nullable hread fun x hx hnull => ?_
  have hnone := hread x hx
  rw [hnull] at hnone
  cases hnone

/-! ### Conditions -/

theorem SuitChoice.ofJson?_arranged (form : TagForm) (c : SuitChoice) :
    SuitChoice.ofJson? form (r c.toJson) = some c := by
  cases c with
  | named name =>
      simp [SuitChoice.toJson, SuitChoice.ofJson?, hr.single, Json.variant?, hr.str, Json.string?]
  | coloured colour =>
      simp [SuitChoice.toJson, SuitChoice.ofJson?, hr.single, Json.variant?,
        Tagged.ofJson?_arranged hr]

theorem SuitTest.ofJson?_arranged (form : TagForm) (t : SuitTest)
    (h : ∀ n ∈ t.numbers, n.isFinite = true) : SuitTest.ofJson? form (r t.toJson) = some t := by
  obtain ⟨members, hmembers, hfind⟩ := hr.members? (rfl : t.toJson = .obj _) (by simp)
  simp [SuitTest.ofJson?, hmembers, Json.required, Json.withDefault, Json.optional, hfind,
    Json.find_cons, SuitChoice.ofJson?_arranged hr, Tagged.ofJson?_arranged hr,
    Quantity.nullable_arranged hr t.count h]

theorem Condition.ofJson?_arranged (c : Condition) (h : ∀ n ∈ c.test.numbers, n.isFinite = true) :
    Condition.ofJson? (r c.toJson) = some c := by
  obtain ⟨members, hmembers, hfind⟩ := hr.members? (rfl : c.toJson = .obj _) (by simp)
  have hkind : Condition.kindOfJson? (r (Condition.kindToJson c.subject c.test)) =
      some (c.subject, c.test) := by
    simp [Condition.kindOfJson?, Condition.kindToJson, hr.typed?,
      SuitTest.ofJson?_arranged hr .lenient c.test h]
  simp [Condition.ofJson?, hmembers, Json.required, Json.withDefault, hfind, Json.find_cons, hkind,
    hr.bool, Json.bool?]

theorem ConditionGroup.ofJson?_arranged (g : ConditionGroup)
    (h : ∀ n ∈ g.numbers, n.isFinite = true) : ConditionGroup.ofJson? (r g.toJson) = some g := by
  obtain ⟨members, hmembers, hfind⟩ := hr.members? (rfl : g.toJson = .obj _) (by simp)
  have hconditions : Json.list? Condition.ofJson? (r (.arr (g.conditions.map Condition.toJson))) =
      some g.conditions :=
    hr.list? fun c hc => Condition.ofJson?_arranged hr c
      fun n hn => h n (List.mem_flatMap.mpr ⟨c, hc, hn⟩)
  simp [ConditionGroup.ofJson?, hmembers, Json.required, Json.withDefault, hfind, Json.find_cons,
    Tagged.ofJson?_arranged hr, hconditions]

/-! ### Effects -/

theorem Rarity.ofJson?_arranged (form : TagForm) (rarity : Rarity) :
    Rarity.ofJson? form (r rarity.toJson) = some rarity := by
  cases rarity <;>
    simp [Rarity.toJson, Rarity.ofJson?, hr.str, hr.single, Json.variant?, Json.tag?, Json.string?]

theorem JokerChoice.ofJson?_arranged (form : TagForm) (choice : JokerChoice) :
    JokerChoice.ofJson? form (r choice.toJson) = some choice := by
  cases choice <;>
    simp [JokerChoice.toJson, JokerChoice.ofJson?, hr.str, hr.single, Json.variant?, Json.tag?,
      Json.string?, Rarity.ofJson?_arranged hr]

theorem JokerCreation.ofJson?_arranged (form : TagForm) (p : JokerCreation) :
    JokerCreation.ofJson? form (r p.toJson) = some p := by
  obtain ⟨members, hmembers, hfind⟩ := hr.members? (rfl : p.toJson = .obj _) (by simp)
  simp [JokerCreation.ofJson?, hmembers, Json.withDefault, Json.optional, hfind, Json.find_cons,
    JokerChoice.ofJson?_arranged hr, optionalText, hr.nullable_text, hr.bool, Json.bool?]

theorem ConsumableChoice.ofJson?_arranged (form : TagForm) (choice : ConsumableChoice) :
    ConsumableChoice.ofJson? form (r choice.toJson) = some choice := by
  cases choice with
  | any =>
      simp [ConsumableChoice.toJson, ConsumableChoice.ofJson?, hr.str, Json.variant?, Json.tag?]
  | ofSet set card =>
      obtain ⟨members, hmembers, hfind⟩ := hr.members? (rfl :
        Json.obj [("set", Tagged.toJson set), ("card", .ofOption .str card)] = .obj _) (by simp)
      simp [ConsumableChoice.toJson, ConsumableChoice.ofJson?, hr.single, Json.variant?, hmembers,
        Json.required, Json.optional, Json.withDefault, hfind, Json.find_cons,
        Tagged.ofJson?_arranged hr, optionalText, hr.nullable_text]

theorem ConsumableRemoval.ofJson?_arranged (form : TagForm) (p : ConsumableRemoval) :
    ConsumableRemoval.ofJson? form (r p.toJson) = some p := by
  obtain ⟨members, hmembers, hfind⟩ := hr.members? (rfl : p.toJson = .obj _) (by simp)
  simp [ConsumableRemoval.ofJson?, hmembers, Json.withDefault, hfind, Json.find_cons,
    ConsumableChoice.ofJson?_arranged hr]

theorem HandChange.ofJson?_arranged (form : TagForm) (p : HandChange)
    (h : ∀ n ∈ p.value.numbers, n.isFinite = true) :
    HandChange.ofJson? form (r p.toJson) = some p := by
  obtain ⟨members, hmembers, hfind⟩ := hr.members? (rfl : p.toJson = .obj _) (by simp)
  simp [HandChange.ofJson?, hmembers, Json.required, Json.withDefault, hfind, Json.find_cons,
    Tagged.ofJson?_arranged hr, Quantity.ofJson?_arranged hr p.value h]

theorem BlindChange.ofJson?_arranged (form : TagForm) (p : BlindChange)
    (h : ∀ n ∈ p.value.numbers, n.isFinite = true) :
    BlindChange.ofJson? form (r p.toJson) = some p := by
  obtain ⟨members, hmembers, hfind⟩ := hr.members? (rfl : p.toJson = .obj _) (by simp)
  simp [BlindChange.ofJson?, hmembers, Json.required, Json.withDefault, hfind, Json.find_cons,
    Tagged.ofJson?_arranged hr, Quantity.ofJson?_arranged hr p.value h]

theorem Discount.ofJson?_arranged (form : TagForm) (p : Discount)
    (h : p.amount.isFinite = true) : Discount.ofJson? form (r p.toJson) = some p := by
  obtain ⟨members, hmembers, hfind⟩ := hr.members? (rfl : p.toJson = .obj _) (by simp)
  simp [Discount.ofJson?, hmembers, Json.withDefault, hfind, Json.find_cons,
    Tagged.ofJson?_arranged hr, Number.number?_arranged hr h]

theorem RerollGrant.ofJson?_arranged (p : RerollGrant) (h : p.amount.isFinite = true) :
    RerollGrant.ofJson? (r p.toJson) = some p := by
  obtain ⟨members, hmembers, hfind⟩ := hr.members? (rfl : p.toJson = .obj _) (by simp)
  simp [RerollGrant.ofJson?, hmembers, Json.withDefault, hfind, Json.find_cons,
    Number.number?_arranged hr h]

theorem SuitPair.ofJson?_arranged (form : TagForm) (p : SuitPair) :
    SuitPair.ofJson? form (r p.toJson) = some p := by
  obtain ⟨members, hmembers, hfind⟩ := hr.members? (rfl : p.toJson = .obj _) (by simp)
  simp [SuitPair.ofJson?, hmembers, Json.required, hfind, Json.find_cons,
    Tagged.ofJson?_arranged hr]

theorem EffectKind.ofJson?_arranged (kind : EffectKind)
    (h : ∀ n ∈ kind.numbers, n.isFinite = true) :
    EffectKind.ofJson? (r kind.toJson) = some kind := by
  rw [EffectKind.toJson, EffectKind.ofJson?, hr.typed?]
  cases kind with
  | createJoker p =>
      simp [EffectKind.tag, EffectKind.paramsJson, JokerCreation.ofJson?_arranged hr]
  | destroyConsumable p =>
      simp [EffectKind.tag, EffectKind.paramsJson, ConsumableRemoval.ofJson?_arranged hr]
  | editHand p =>
      simp [EffectKind.tag, EffectKind.paramsJson, HandChange.ofJson?_arranged hr .lenient p h]
  | modifyBlind p =>
      simp [EffectKind.tag, EffectKind.paramsJson, BlindChange.ofJson?_arranged hr .lenient p h]
  | discountItems p =>
      have hamount := h p.amount (List.mem_singleton.mpr rfl)
      simp [EffectKind.tag, EffectKind.paramsJson, Discount.ofJson?_arranged hr .lenient p hamount]
  | freeRerolls p =>
      have hamount := h p.amount (List.mem_singleton.mpr rfl)
      simp [EffectKind.tag, EffectKind.paramsJson, RerollGrant.ofJson?_arranged hr p hamount]
  | combineSuits p =>
      simp [EffectKind.tag, EffectKind.paramsJson, SuitPair.ofJson?_arranged hr]

theorem Effect.ofJson?_arranged (effect : Effect)
    (h : ∀ n ∈ effect.kind.numbers, n.isFinite = true) :
    Effect.ofJson? (r effect.toJson) = some effect := by
  obtain ⟨members, hmembers, hfind⟩ := hr.members? (rfl : effect.toJson = .obj _) (by simp)
  simp [Effect.ofJson?, hmembers, Json.required, Json.withDefault, Json.optional, hfind,
    Json.find_cons, hr.str, Json.string?, EffectKind.ofJson?_arranged hr effect.kind h,
    optionalText, hr.nullable_text]

/-! ### Rules and jokers -/

theorem Rule.ofJson?_arranged (rule : Rule) (h : ∀ n ∈ rule.numbers, n.isFinite = true) :
    Rule.ofJson? (r rule.toJson) = some rule := by
  obtain ⟨members, hmembers, hfind⟩ := hr.members? (rfl : rule.toJson = .obj _) (by simp)
  have hgroups : Json.list? ConditionGroup.ofJson?
      (r (.arr (rule.groups.map ConditionGroup.toJson))) = some rule.groups :=
    hr.list? fun g hg => ConditionGroup.ofJson?_arranged hr g fun n hn =>
      h n (List.mem_append_left _ (List.mem_flatMap.mpr ⟨g, hg, hn⟩))
  have heffects : Json.list? Effect.ofJson? (r (.arr (rule.effects.map Effect.toJson))) =
      some rule.effects :=
    hr.list? fun e he => Effect.ofJson?_arranged hr e fun n hn =>
      h n (List.mem_append_right _ (List.mem_flatMap.mpr ⟨e, he, hn⟩))
  simp [Rule.ofJson?, hmembers, Json.required, Json.withDefault, hfind, Json.find_cons, hr.str,
    Json.string?, Tagged.ofJson?_arranged hr, hgroups, heffects]

theorem Variable.ofJson?_arranged (v : Variable) (h : v.initial.isFinite = true) :
    Variable.ofJson? (r v.toJson) = some v := by
  obtain ⟨members, hmembers, hfind⟩ := hr.members? (rfl : v.toJson = .obj _) (by simp)
  simp [Variable.ofJson?, hmembers, Json.required, Json.withDefault, hfind, Json.find_cons, hr.str,
    Json.string?, Tagged.ofJson?_arranged hr, Number.number?_arranged hr h]

/-- **A joker is read back from any arrangement of its JSON form.** -/
theorem Joker.ofJson?_arranged (joker : Joker) (h : ∀ n ∈ joker.numbers, n.isFinite = true) :
    Joker.ofJson? (r joker.toJson) = some joker := by
  obtain ⟨members, hmembers, hfind⟩ := hr.members? (rfl : joker.toJson = .obj _) (by simp)
  have hrules : Json.list? Rule.ofJson? (r (.arr (joker.rules.map Rule.toJson))) =
      some joker.rules :=
    hr.list? fun rule hrule => Rule.ofJson?_arranged hr rule fun n hn =>
      h n (List.mem_append_left _ (List.mem_flatMap.mpr ⟨rule, hrule, hn⟩))
  have hvars : Json.list? Variable.ofJson? (r (.arr (joker.vars.map Variable.toJson))) =
      some joker.vars :=
    hr.list? fun v hv => Variable.ofJson?_arranged hr v
      (h v.initial (List.mem_append_right _ (List.mem_map_of_mem hv)))
  simp [Joker.ofJson?, hmembers, Json.required, Json.withDefault, hfind, Json.find_cons, hr.str,
    Json.string?, hrules, hvars]

end

/-! ### Texts -/

/-- A number that JSON has no numeral for is written as `null`. -/
theorem Number.readable_toJson (n : Number) : n.toJson.Readable := by
  rw [Number.toJson]
  split
  · rename_i hfinite
    exact hfinite
  · trivial

theorem Quantity.readable_toJson (q : Quantity) : q.toJson.Readable := by
  cases q with
  | number n => exact n.readable_toJson
  | text s => trivial

theorem readable_ofOption {α : Type} {encode : α → Json} (h : ∀ a, (encode a).Readable)
    (o : Option α) : (Json.ofOption encode o).Readable := by
  cases o with
  | none => trivial
  | some a => exact h a

theorem readable_optionalText (o : Option String) : (optionalText o).Readable := by
  cases o <;> trivial

theorem readableItems_map {α : Type} {encode : α → Json} (h : ∀ a, (encode a).Readable)
    (xs : List α) : Json.ReadableItems (xs.map encode) := by
  induction xs with
  | nil => trivial
  | cons x xs ih => exact ⟨h x, ih⟩

theorem Condition.readable_toJson (c : Condition) : c.toJson.Readable := by
  have hchoice : c.test.choice.toJson.Readable := by
    cases c.test.choice <;> exact ⟨trivial, trivial⟩
  have htest : c.test.toJson.Readable :=
    ⟨hchoice, trivial, trivial, readable_ofOption Quantity.readable_toJson _, trivial⟩
  exact ⟨⟨trivial, htest, trivial⟩, trivial, trivial⟩

theorem ConditionGroup.readable_toJson (g : ConditionGroup) : g.toJson.Readable :=
  ⟨trivial, readableItems_map Condition.readable_toJson _, trivial⟩

theorem JokerCreation.readable_toJson (p : JokerCreation) : p.toJson.Readable := by
  have hrarity : ∀ rarity : Rarity, rarity.toJson.Readable := by
    intro rarity
    cases rarity <;> simp [Rarity.toJson, Json.Readable, Json.ReadableMembers]
  have hselection : p.selection.toJson.Readable := by
    cases p.selection with
    | random => trivial
    | ofRarity rarity => exact ⟨hrarity rarity, trivial⟩
    | specific key => exact ⟨trivial, trivial⟩
  exact ⟨hselection, readable_optionalText _, readable_optionalText _, trivial, trivial⟩

theorem ConsumableRemoval.readable_toJson (p : ConsumableRemoval) : p.toJson.Readable := by
  have htarget : p.target.toJson.Readable := by
    cases p.target with
    | any => trivial
    | ofSet set card => exact ⟨⟨trivial, readable_optionalText card, trivial⟩, trivial⟩
  exact ⟨htarget, trivial⟩

theorem EffectKind.readable_paramsJson (kind : EffectKind) : kind.paramsJson.Readable := by
  cases kind with
  | createJoker p => exact p.readable_toJson
  | destroyConsumable p => exact p.readable_toJson
  | editHand p => exact ⟨trivial, trivial, p.value.readable_toJson, trivial⟩
  | modifyBlind p => exact ⟨trivial, p.value.readable_toJson, trivial⟩
  | discountItems p => exact ⟨trivial, trivial, p.amount.readable_toJson, trivial⟩
  | freeRerolls p => exact ⟨p.amount.readable_toJson, trivial⟩
  | combineSuits p => exact ⟨trivial, trivial, trivial⟩

theorem Effect.readable_toJson (effect : Effect) : effect.toJson.Readable :=
  ⟨trivial, ⟨trivial, effect.kind.readable_paramsJson, trivial⟩, readable_optionalText _, trivial⟩

theorem Rule.readable_toJson (rule : Rule) : rule.toJson.Readable :=
  ⟨trivial, trivial, readableItems_map ConditionGroup.readable_toJson _,
    readableItems_map Effect.readable_toJson _, trivial⟩

theorem Variable.readable_toJson (v : Variable) : v.toJson.Readable :=
  ⟨trivial, trivial, v.initial.readable_toJson, trivial⟩

/-- Every number in the JSON form of a joker has a numeral. -/
theorem Joker.readable_toJson (joker : Joker) : joker.toJson.Readable :=
  ⟨trivial, trivial, trivial, readableItems_map Rule.readable_toJson _,
    readableItems_map Variable.readable_toJson _, trivial⟩

/-- **A joker with finite numbers is read back**, from its JSON form and from the compact text of
that form. -/
theorem Joker.toJson_roundTrip (joker : Joker) (h : ∀ n ∈ joker.numbers, n.isFinite = true) :
    Joker.ofJson? joker.toJson = some joker ∧
      (Json.read? joker.toJson.compact).bind Joker.ofJson? = some joker := by
  refine ⟨Joker.ofJson?_arranged Json.rearranges_id joker h, ?_⟩
  rw [Json.read?_compact joker.readable_toJson]
  exact Joker.ofJson?_arranged Json.rearranges_sorted joker h

/-- A joker with numbers of both signs, a name that needs escapes, and parts of many kinds. -/
def collector : Joker where
  id := ⟨"joker"⟩
  key := ⟨"collector"⟩
  name := "The \"Collector\"\n\\ ♥"
  rules :=
    [{ id := ⟨"collect"⟩
       trigger := .roundEnd
       groups :=
        [{ connective := .or
           conditions :=
            [{ subject := .discarded
               test :=
                { choice := .coloured .red
                  quantifier := .atMost
                  scope := .all
                  count := some (.number (Number.ofDecimal false 25 (-1))) }
               negate := true },
              { subject := .played, test := { choice := .named "Hearts" } }] }]
       effects :=
        [{ id := ⟨"create"⟩
           kind := .createJoker
            { selection := .ofRarity (.custom "mythic")
              edition := some negativeEdition
              sticker := some "eternal" } },
          { id := ⟨"destroy"⟩, kind := .destroyConsumable { target := .ofSet .spectral none } },
          { id := ⟨"edit"⟩
            kind := .editHand { operation := .set, value := .text "RANGE:1|2" }
            customMessage := some "" },
          { id := ⟨"discount"⟩, kind := .discountItems { amount := Number.ofDecimal true 1 300 } },
          { id := ⟨"combine"⟩, kind := .combineSuits { first := .hearts, second := .clubs } }] }]
  vars := [.ofSuit "favourite", .ofNumber "smallest" (Number.ofDecimal true 5 (-324))]

theorem Joker.toJson_roundTrip_collector : (∀ n ∈ collector.numbers, n.isFinite = true) ∧
    Joker.ofJson? collector.toJson = some collector ∧
      (Json.read? collector.toJson.compact).bind Joker.ofJson? = some collector := by
  have hfinite : ∀ n ∈ collector.numbers, n.isFinite = true := by decide +kernel
  exact ⟨hfinite, Joker.toJson_roundTrip collector hfinite⟩

end JokerScript
