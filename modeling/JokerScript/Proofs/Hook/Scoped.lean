import JokerScript.Proofs.Compile.Hooks
import JokerScript.Proofs.Hook.Replaced
import JokerScript.Proofs.Resolve.Scoped

/-!
# Scopes of Replaced Functions

A replacement saves the old function in a local variable and defines the new one below it. The
new function sees the saved one, the card, its own parameters, and what it declares when it
calls the saved function. The changes of all owners are put there one after the other, so each
of them must be well scoped in the function of its own category.

## Main definitions

* `HookCategory.scope` — the variables that a change of a category sees.

## Main results

* `HookChange.blockScoped_block` — the changes of a category.
* `Patch.blockScoped_merging` — the replacement for some requests.
-/

namespace JokerScript

open Lua

/-- The variables that a change of a category sees. -/
def HookCategory.scope : HookCategory → List String
  | discountItems => ["self", "card_set_cost_ref"] ++ runtimeGlobals
  | combineSuits =>
    ["ret", "self", "suit", "bypass_debuff", "flush_calc", "card_is_suit_ref"] ++ runtimeGlobals

theorem SetCost.isScoped_covers (target : DiscountTarget) :
    (covers target).IsScoped HookCategory.discountItems.scope := by
  have hset : ∀ name, (isSet name).IsScoped HookCategory.discountItems.scope := fun name => by
    simp +decide [isSet, Expr.equals]
  have hbooster : ∀ kind,
      (isBoosterOf kind).IsScoped HookCategory.discountItems.scope := fun kind => by
    simp +decide [isBoosterOf, hset, Expr.and, Expr.equals]
  have honeOf : ∀ names, (isOneOf names).IsScoped HookCategory.discountItems.scope := by
    refine fun names => Expr.isScoped_joined (Expr.isScoped_bool false) fun test htest => ?_
    obtain ⟨name, -, rfl⟩ := List.mem_map.mp htest
    exact hset name
  cases target <;> simp [covers, Expr.or, hset, hbooster, honeOf]

theorem SetCost.isScoped_discountedCost (method : DiscountMethod) (amount : Number) :
    (discountedCost method amount).IsScoped HookCategory.discountItems.scope := by
  cases method <;>
    simp +decide [discountedCost, atLeastZero, cost, Expr.minus, Expr.times, Expr.dividedBy]

/-- **A change is well scoped** in the function of its category. -/
theorem HookChange.blockScoped_block (change : HookChange) (inLoop : Bool) :
    BlockScoped change.block change.category.scope inLoop := by
  cases change with
  | discount params =>
      have hcovers := SetCost.isScoped_covers params.target
      have hcost := SetCost.isScoped_discountedCost params.method params.amount
      simp +decide [block, category, SetCost.discount, hcovers, hcost]
  | suitPair params =>
      simp +decide [block, category, SuitCheck.combine, SuitCheck.isPair, SuitCheck.answer,
        Expr.and, Expr.or, Expr.equals]

/-- The changes of requests that are filed under their category lead on to the end of the
function. -/
theorem HookRequest.leadsOn_blocks (naming : Naming) (category : HookCategory)
    {requests : List HookRequest} (h : ∀ request ∈ requests, request.change.category = category) :
    LeadsOn (requests.map (HookRequest.block naming)) category.scope category.scope := by
  induction requests with
  | nil => exact LeadsOn.nil _
  | cons request requests ih =>
      rw [List.forall_mem_cons] at h
      intro rest inLoop hrest
      have hheld : (request.isHeld naming).IsScoped category.scope := by
        cases category <;> simp +decide [isHeld]
      have hblock := request.change.blockScoped_block inLoop
      rw [h.1] at hblock
      rw [List.map_cons, List.cons_append, block, blockScoped_ifThen]
      exact ⟨⟨hheld, hblock⟩, ih h.2 rest inLoop hrest⟩

/-- The frame of a replacement: the saved function is visible in the new one, with the card and
the parameters of the category. -/
theorem Patch.blockScoped_frame (category : HookCategory) {changes : List Stmt}
    {after : List String}
    (hcall : LeadsOn (category.template.callThrough category.reference)
      ("self" :: category.template.params ++ category.reference :: runtimeGlobals) after)
    (hchanges : LeadsOn changes after after)
    (hepilogue : BlockScoped category.template.epilogue after false) :
    BlockScoped (Patch.frame category.template changes) runtimeGlobals false := by
  have hname : isIdentifier category.reference = true := by cases category <;> decide
  have htarget : InScope runtimeGlobals category.function := by cases category <;> decide
  have hparams : AreIdentifiers category.template.params := by cases category <;> decide
  have hself : methodParams category.template.target category.template.params =
      "self" :: category.template.params := by cases category <;> decide
  rw [Patch.frame, category.referenceName_target, blockScoped_letLocal, blockScoped_define,
    category.functionPath_target, hself]
  exact ⟨⟨hname, htarget⟩, ⟨htarget.mono (List.subset_cons_self _ _), hparams,
    (hcall.append hchanges) _ false hepilogue⟩, blockScoped_nil⟩

/-- **The replacement for some requests is well scoped.** -/
theorem Patch.blockScoped_merging (naming : Naming) (category : HookCategory)
    {requests : List HookRequest} (h : ∀ request ∈ requests, request.change.category = category) :
    BlockScoped (Patch.merging naming category requests).body runtimeGlobals false := by
  have hchanges := HookRequest.leadsOn_blocks naming category h
  cases category with
  | discountItems =>
      refine Patch.blockScoped_frame .discountItems (fun rest inLoop hrest => ?_) hchanges ?_
      · have hrest : BlockScoped rest ("self" :: "card_set_cost_ref" :: runtimeGlobals) inLoop :=
          hrest
        simp +decide [HookCategory.template, SetCost.template, Template.referenceCall,
          HookCategory.reference, hrest]
      · simp +decide [HookCategory.template, SetCost.template, SetCost.epilogue, SetCost.cost,
          Expr.plus, Expr.or, Expr.and, Expr.equals, Expr.dividedBy]
  | combineSuits =>
      refine Patch.blockScoped_frame .combineSuits (fun rest inLoop hrest => ?_) hchanges ?_
      · refine (blockScoped_letLocal rest _ _).mpr ⟨⟨by decide, ?_⟩, hrest⟩
        simp +decide [Template.referenceCall, SuitCheck.params, HookCategory.reference]
      · simp +decide [HookCategory.template, SuitCheck.template, SuitCheck.answer]

end JokerScript
