import JokerScript.Proofs.Compile.Reports

/-!
# Replaced Functions of Mods

Effects that change a function of the game travel as requests: from the effects of a rule to the
ledger that all jokers share, and from there to the replacement of the function. Requests of
rules that fail are forgotten, and no other one is lost, doubled or moved.

## Main definitions

* `JokerCode.hooks` — the requests of the code of a joker.
* `Joker.askers`, `Joker.requests` — the effects that ask for changes of a category, and what
  they ask for.
* `GathersRequests` — the replacements gather what the effects of some jokers ask for.

## Main results

* `hooks_of_compileWith` — the replacements are told by the codes of the jokers.
* `compile_hooks` — the replacements of a mod.
-/

namespace JokerScript

open Lua

/-! ### Requests of codes -/

/-- The hook requests of the rules of a joker, in order. -/
def JokerCode.hooks (code : JokerCode) : List HookRequest := code.rules.flatMap (·.hooks)

/-- The requests of a category that the codes of jokers make. -/
def requestsOf (codes : List JokerCode) (category : HookCategory) : List HookRequest :=
  (codes.flatMap JokerCode.hooks).filter (·.category = category)

theorem requestsOf_append (codes others : List JokerCode) (category : HookCategory) :
    requestsOf (codes ++ others) category =
      requestsOf codes category ++ requestsOf others category := by
  rw [requestsOf, List.flatMap_append, List.filter_append, requestsOf, requestsOf]

namespace JokerProgress

variable {setting : Setting} {progress next done : JokerProgress}

/-- **One step.** The ledger gains the requests of the codes that the progress gains. -/
theorem requests_step {rule : Rule} (h : progress.step setting rule = .ok next) :
    ∃ codes, next.rules = progress.rules ++ codes ∧ ∀ category,
      next.ledger.requests category = progress.ledger.requests category ++
        (codes.flatMap RuleCode.hooks).filter (·.category = category) := by
  rw [step] at h
  split at h
  · rename_i code storage hrun
    obtain ⟨ledger, hadd, h⟩ := exists_of_bind_eq_ok h
    obtain rfl := Except.ok.inj h
    refine ⟨[code], rfl, fun category => ?_⟩
    rw [HookLedger.requests_addAll hadd, List.flatMap_singleton]
  · obtain rfl := Except.ok.inj h
    exact ⟨[], (List.append_nil _).symm, fun category => (List.append_nil _).symm⟩

/-- All rules of a joker. -/
theorem requests_foldlM {rules : List Rule} (h : rules.foldlM (step setting) progress = .ok done) :
    ∃ codes, done.rules = progress.rules ++ codes ∧ ∀ category,
      done.ledger.requests category = progress.ledger.requests category ++
        (codes.flatMap RuleCode.hooks).filter (·.category = category) := by
  induction rules generalizing progress with
  | nil =>
      obtain rfl := Except.ok.inj h
      exact ⟨[], (List.append_nil _).symm, fun category => (List.append_nil _).symm⟩
  | cons rule rules ih =>
      rw [List.foldlM_cons] at h
      obtain ⟨next, hstep, hrest⟩ := exists_of_bind_eq_ok h
      obtain ⟨first, hfirst, hfirstRequests⟩ := requests_step hstep
      obtain ⟨others, hothers, hotherRequests⟩ := ih hrest
      refine ⟨first ++ others, by rw [hothers, hfirst, List.append_assoc], fun category => ?_⟩
      rw [hotherRequests, hfirstRequests, List.flatMap_append, List.filter_append,
        List.append_assoc]

end JokerProgress

section Mods

variable {naming : Naming} {ledger next : HookLedger}

/-- **A joker adds to the ledger** what its code asks for. -/
theorem Joker.requests_compile {joker : Joker} {failures : List RuleFailure} {code : JokerCode}
    (h : joker.compile naming ledger failures = .ok (code, next)) (category : HookCategory) :
    next.requests category = ledger.requests category ++ requestsOf [code] category := by
  obtain ⟨storage, -, h⟩ := exists_of_bind_eq_ok h
  obtain ⟨done, hfold, h⟩ := exists_of_bind_eq_ok h
  obtain ⟨rfl, rfl⟩ := Prod.mk.inj (Except.ok.inj h)
  obtain ⟨codes, hcodes, hrequests⟩ := JokerProgress.requests_foldlM hfold
  rw [hrequests, requestsOf, List.flatMap_singleton, JokerCode.hooks, hcodes, List.nil_append]

theorem requests_compileJokers {jokers : List (Joker × List RuleFailure)} {codes : List JokerCode}
    (h : compileJokers naming ledger jokers = .ok (codes, next)) (category : HookCategory) :
    next.requests category = ledger.requests category ++ requestsOf codes category := by
  induction jokers generalizing ledger codes with
  | nil =>
      obtain ⟨rfl, rfl⟩ := Prod.mk.inj (Except.ok.inj h)
      exact (List.append_nil _).symm
  | cons p jokers ih =>
      obtain ⟨joker, failures⟩ := p
      obtain ⟨⟨code, middle⟩, hcode, h⟩ := exists_of_bind_eq_ok h
      obtain ⟨⟨others, last⟩, hothers, h⟩ := exists_of_bind_eq_ok h
      obtain ⟨rfl, rfl⟩ := Prod.mk.inj (Except.ok.inj h)
      rw [ih hothers, Joker.requests_compile hcode, List.append_assoc, ← requestsOf_append,
        List.singleton_append]

/-- **The replacements of a mod** are told by the codes of its jokers. -/
theorem hooks_of_compileWith {jokers : List (Joker × List RuleFailure)} {code : ModCode}
    (h : compileWith naming jokers = .ok code) :
    code.hooks = mergedPatches naming (requestsOf code.jokers) := by
  obtain ⟨hnodup, -⟩ := compilesTo_of_compileWith h
  obtain ⟨codes, last, hcodes, hlast, -⟩ := compileJokers_of_nodup naming .standard hnodup
  have hrequests : last.requests = requestsOf codes := funext (requests_compileJokers hcodes)
  simp only [compileWith, hcodes, bind, Except.bind, hlast.patches_eq naming, hrequests] at h
  obtain rfl := Except.ok.inj h
  rfl

end Mods

/-! ### Requests of effects -/

namespace EffectKind

/-- **The kinds with the tag of a category** are those whose effects ask for a change of the
category. -/
theorem hook?_spec (owner : JokerKey) (category : HookCategory) (kind : EffectKind) :
    if kind.tag = Tagged.tag category then
      ∃ request, kind.hook? owner = some request ∧ request.owner = owner ∧
        request.category = category
    else ∀ request ∈ kind.hook? owner, request.category ≠ category := by
  cases kind <;> cases category <;>
    simp +decide [tag, hook?, Tagged.tag, HookRequest.ofChange, HookChange.category]

end EffectKind

namespace Joker

/-- The effects of a joker that ask for changes of a category, rule by rule. -/
def askers (category : HookCategory) (joker : Joker) : List Effect :=
  (joker.rules.flatMap (·.effects)).filter fun effect => effect.kind.tag = Tagged.tag category

/-- What these effects ask for, each for the change that it has the parameters of. -/
def requests (category : HookCategory) (joker : Joker) : List HookRequest :=
  (joker.askers category).filterMap fun effect => effect.kind.hook? joker.key

variable {joker : Joker}

/-- Every asker makes one request, in the name of its joker. -/
theorem map_owner_requests (category : HookCategory) (joker : Joker) :
    (joker.requests category).map (·.owner) = (joker.askers category).map fun _ => joker.key := by
  rw [requests, List.map_filterMap, ← List.filterMap_eq_map]
  refine List.filterMap_congr fun effect heffect => ?_
  have hspec := effect.kind.hook?_spec joker.key category
  rw [if_pos (by simpa using (List.mem_filter.mp heffect).2)] at hspec
  obtain ⟨request, hrequest, howner, -⟩ := hspec
  rw [hrequest, Option.map_some, howner]
  rfl

/-- The requests of a category are those of its askers. -/
theorem filter_filterMap_hook? (category : HookCategory) (owner : JokerKey)
    (effects : List Effect) :
    (effects.filterMap fun effect => effect.kind.hook? owner).filter (·.category = category) =
      (effects.filter fun effect => effect.kind.tag = Tagged.tag category).filterMap
        fun effect => effect.kind.hook? owner := by
  rw [List.filter_filterMap, List.filterMap_filter]
  refine List.filterMap_congr fun effect _ => ?_
  have hspec := effect.kind.hook?_spec owner category
  split at hspec
  · rename_i htag
    obtain ⟨request, hrequest, -, hcategory⟩ := hspec
    simp [hrequest, htag, hcategory]
  · rename_i htag
    rw [if_neg (by simpa using htag)]
    refine Option.filter_eq_none_iff.mpr fun request hrequest => ?_
    simpa using hspec request hrequest

/-- The requests of a rule that was compiled are those of its effects. -/
theorem hooks_ruleTurn {naming : Naming} {start : Storage} (hstart : start.Reachable)
    {turn : Turn Rule RuleCode} (h : turn ∈ joker.ruleTurns naming start) :
    turn.code.hooks = turn.item.effects.filterMap fun effect => effect.kind.hook? joker.key := by
  obtain ⟨hbefore, hmakes⟩ := ruleTurn_spec hstart h
  rw [RuleCode.hooks, hmakes.effects, List.filterMap_map]
  conv_rhs => rw [← hmakes.items, List.filterMap_map]
  refine List.filterMap_congr fun effect heffect => ?_
  obtain ⟨-, -, heffectMakes⟩ :=
    Effect.turn_spec ⟨joker, naming⟩ (Rule.conditions_spec _ turn.item hbefore).1 heffect
  exact heffectMakes.hook

/-- **The code of a joker asks for** what its fitting rules ask for. -/
theorem requestsOf_codeFrom {naming : Naming} {start : Storage} (hstart : start.Reachable)
    (failures : List RuleFailure) (category : HookCategory) :
    requestsOf [joker.codeFrom naming start failures] category =
      joker.fitting.requests category := by
  have hhooks : (joker.codeFrom naming start failures).hooks =
      (joker.fitting.rules.flatMap (·.effects)).filterMap
        fun effect => effect.kind.hook? joker.key := by
    rw [JokerCode.hooks, codeFrom, List.flatMap_map, fitting,
      ← map_item_ruleTurns naming joker hstart, List.flatMap_map, List.filterMap_flatMap]
    exact List.flatMap_congr fun turn hturn => hooks_ruleTurn hstart hturn
  rw [requestsOf, List.flatMap_singleton, hhooks, filter_filterMap_hook?]
  rfl

end Joker

/-- The codes of jokers ask for what the fitting rules of the jokers ask for. -/
theorem requestsOf_of_compilesTo {naming : Naming} {jokers : List Joker} {codes : List JokerCode}
    (h : List.Forall₂ (fun joker => CompilesTo naming (joker, [])) jokers codes)
    (category : HookCategory) :
    requestsOf codes category = (jokers.map Joker.fitting).flatMap (Joker.requests category) := by
  induction h with
  | nil => rfl
  | @cons joker code jokers codes hhead _ ih =>
      obtain ⟨start, hstart, rfl⟩ := hhead
      rw [← List.singleton_append, requestsOf_append, ih, List.map_cons, List.flatMap_cons,
        Joker.requestsOf_codeFrom (Storage.Reachable.ofJoker hstart)]

/-! ### Replacements -/

/-- **The replacements gather the requests** of the effects of some jokers. -/
structure GathersRequests (naming : Naming) (jokers : List Joker) (hooks : List Patch) : Prop where
  /-- A function is replaced exactly if an effect asks for a change of its category. -/
  asked : ∀ category, (∃ patch ∈ hooks, patch.category = category) ↔
    ∃ joker ∈ jokers, ∃ rule ∈ joker.rules, ∃ effect ∈ rule.effects,
      effect.kind.tag = Tagged.tag category
  /-- It is replaced once, and costs come before suits. -/
  ordered : (hooks.map (·.category)).Sublist [.discountItems, .combineSuits]
  /-- The owners are the jokers of these effects, once for each effect and in their order. -/
  owners : ∀ patch ∈ hooks, patch.owners =
    jokers.flatMap fun joker => (joker.askers patch.category).map fun _ => joker.key
  /-- Between the call of the saved function and the end of the new one stands one block for
  each effect, in their order: the change with the parameters of the effect, behind the
  question whether the owner is held. -/
  body : ∀ patch ∈ hooks, patch.target = patch.category.template.target ∧
    patch.body =
      [.letLocal (referenceName patch.target) (.path (functionPath patch.target)),
       .define patch.target patch.category.template.params
        (patch.category.template.callThrough (referenceName patch.target) ++
          (jokers.flatMap (Joker.requests patch.category)).map (fun request =>
            .ifThen (.apply "next" [.apply "SMODS.find_card"
              [.str (naming.jokerKey request.owner)]]) request.change.block) ++
          patch.category.template.epilogue)]

/-- Something is asked for exactly if an effect asks for it. -/
theorem exists_asker_iff (jokers : List Joker) (category : HookCategory) :
    jokers.flatMap (Joker.requests category) ≠ [] ↔
      ∃ joker ∈ jokers, ∃ rule ∈ joker.rules, ∃ effect ∈ rule.effects,
        effect.kind.tag = Tagged.tag category := by
  have haskers : ∀ joker : Joker, joker.requests category = [] ↔
      ∀ rule ∈ joker.rules, ∀ effect ∈ rule.effects, effect.kind.tag ≠ Tagged.tag category := by
    intro joker
    rw [← List.map_eq_nil_iff, joker.map_owner_requests, List.map_eq_nil_iff, Joker.askers,
      List.filter_eq_nil_iff]
    simp only [List.mem_flatMap, decide_eq_true_eq]
    exact ⟨fun h rule hrule effect heffect => h effect ⟨rule, hrule, heffect⟩,
      fun h effect ⟨rule, hrule, heffect⟩ => h rule hrule effect heffect⟩
  rw [Ne, List.flatMap_eq_nil_iff]
  simp only [haskers]
  push Not
  rfl

/-- Merged requests are gathered. -/
theorem gathersRequests_mergedPatches (naming : Naming) (jokers : List Joker) :
    GathersRequests naming jokers
      (mergedPatches naming fun category => jokers.flatMap (Joker.requests category)) := by
  have hmap : ∀ category, (jokers.flatMap (Joker.requests category)).map (·.owner) =
      jokers.flatMap fun joker => (joker.askers category).map fun _ => joker.key := by
    intro category
    rw [List.map_flatMap]
    exact List.flatMap_congr fun joker _ => joker.map_owner_requests category
  constructor
  case asked =>
    intro category
    constructor
    · rintro ⟨patch, hpatch, rfl⟩
      obtain ⟨category, hne, rfl⟩ := mem_mergedPatches.mp hpatch
      exact (exists_asker_iff jokers category).mp hne
    · intro hasker
      exact ⟨_, mem_mergedPatches.mpr
        ⟨category, (exists_asker_iff jokers category).mpr hasker, rfl⟩, rfl⟩
  case ordered => exact sublist_category_mergedPatches
  case owners =>
    intro patch hpatch
    obtain ⟨category, -, rfl⟩ := mem_mergedPatches.mp hpatch
    exact hmap category
  case body =>
    intro patch hpatch
    obtain ⟨category, -, rfl⟩ := mem_mergedPatches.mp hpatch
    exact ⟨rfl, rfl⟩

/-- **The replaced functions of a mod.** Whatever the jokers are, the rules that were not reported
decide alone which functions are replaced, for whom, and by what. -/
theorem compile_hooks {naming : Naming} {jokers : List Joker} {code : ModCode}
    (h : compile naming jokers = .ok code) :
    code.jokers.map (·.failures) = (reports naming .standard jokers).map List.reduceOption ∧
      GathersRequests naming (withoutReported naming .standard jokers) code.hooks := by
  refine ⟨(compile_withoutReported h).1, ?_⟩
  obtain ⟨hnodup, hjokers⟩ := compilesTo_of_compileWith h
  have hrequests : requestsOf code.jokers = fun category =>
      (withoutReported naming .standard jokers).flatMap (Joker.requests category) := by
    rw [withoutReported_eq naming .standard (by simpa using hnodup)]
    rw [List.forall₂_map_left_iff] at hjokers
    exact funext (requestsOf_of_compilesTo hjokers)
  rw [hooks_of_compileWith h, hrequests]
  exact gathersRequests_mergedPatches naming _

/-- A joker whose first rule asks for a discount and then fails, and whose second rule asks for
changes of both categories. -/
def merchant : Joker where
  id := ⟨"first"⟩
  key := ⟨"merchant"⟩
  rules :=
    [{ id := ⟨"failing"⟩
       trigger := .passive
       effects :=
        [{ id := ⟨"free"⟩, kind := .discountItems {} },
          { id := ⟨"size"⟩, kind := .modifyBlind { value := .number Number.two } }] },
      { id := ⟨"held"⟩
        trigger := .passive
        effects :=
          [{ id := ⟨"red"⟩, kind := .combineSuits ⟨.hearts, .diamonds⟩ },
            { id := ⟨"jokers"⟩, kind := .discountItems { target := .jokers } },
            { id := ⟨"tarots"⟩
              kind := .discountItems { target := .tarot, method := .flatReduction } }] }]

/-- A joker with one discount. -/
def haggler : Joker where
  id := ⟨"second"⟩
  key := ⟨"haggler"⟩
  rules :=
    [{ id := ⟨"held"⟩
       trigger := .passive
       effects := [{ id := ⟨"vouchers"⟩, kind := .discountItems { target := .vouchers } }] }]

/-- The failed rule of `merchant` has no part in the replaced functions. -/
theorem compile_hooks_merchant : ∃ code, compile {} [merchant, haggler] = .ok code ∧
    code.jokers.map (·.failures.length) = [1, 0] ∧
    code.hooks.map (fun patch => (patch.category, patch.owners)) =
      [(.discountItems, [⟨"merchant"⟩, ⟨"merchant"⟩, ⟨"haggler"⟩]),
        (.combineSuits, [⟨"merchant"⟩])] ∧
    code.jokers.map (·.failures) =
      (reports {} .standard [merchant, haggler]).map List.reduceOption ∧
    GathersRequests {} (withoutReported {} .standard [merchant, haggler]) code.hooks := by
  have hrun : ((compile {} [merchant, haggler]).toOption.map fun code =>
      (code.jokers.map (·.failures.length),
        code.hooks.map fun patch => (patch.category, patch.owners))) =
      some ([1, 0], [(.discountItems, [⟨"merchant"⟩, ⟨"merchant"⟩, ⟨"haggler"⟩]),
        (.combineSuits, [⟨"merchant"⟩])]) := by
    decide +kernel
  cases hok : compile {} [merchant, haggler] with
  | error e =>
      rw [hok] at hrun
      cases hrun
  | ok code =>
      rw [hok] at hrun
      obtain ⟨hfailures, howners⟩ := Prod.mk.inj (Option.some.inj hrun)
      exact ⟨code, rfl, hfailures, howners, compile_hooks hok⟩

end JokerScript
