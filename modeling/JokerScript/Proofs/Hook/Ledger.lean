import JokerScript.Hook.Ledger
import JokerScript.Proofs.Success

/-!
# Kept Ledgers

A ledger is **kept** if it has the standard templates and every request in it stands under the
category of its change. Effects only make requests that are filed so, and a kept ledger takes
them all: neither adding a request nor making the replacements at the end can fail.

The replacements of a kept ledger are told by its requests alone. Each category that has
requests makes one, with a block for each request in the order in which they came.

## Main definitions

* `HookLedger.Kept` — the ledgers that a compilation goes through.
* `Patch.merging`, `mergedPatches` — the replacements that requests make.

## Main results

* `HookLedger.requests_addAll` — what adding requests does to each category.
* `HookLedger.Kept.addAll` — adding requests never fails.
* `HookLedger.Kept.patches_eq` — the replacements.
-/

namespace JokerScript

open Lua

/-! ### Requests and their replacements -/

namespace HookRequest

theorem check_eq_ok {request : HookRequest} :
    request.check = .ok () ↔ request.change.category = request.category := by
  rw [check]
  split <;> simp_all

theorem check_ofChange (owner : JokerKey) (change : HookChange) :
    (ofChange owner change).check = .ok () :=
  check_eq_ok.mpr rfl

end HookRequest

/-- The standard template of a category. -/
def HookCategory.template : HookCategory → Template
  | discountItems => SetCost.template
  | combineSuits => SuitCheck.template

/-- What is done for a change while its owner is held. -/
def HookChange.block : HookChange → Block
  | discount params => SetCost.discount params
  | suitPair params => SuitCheck.combine params

/-- The block of a request: its change, behind the question whether its owner is held. -/
def HookRequest.block (naming : Naming) (request : HookRequest) : Stmt :=
  .ifThen (request.isHeld naming) request.change.block

/-- The replacement that the requests of a category make. -/
def Patch.merging (naming : Naming) (category : HookCategory) (requests : List HookRequest) :
    Patch where
  category := category
  target := category.template.target
  owners := requests.map (·.owner)
  body := Patch.frame category.template (requests.map (HookRequest.block naming))

/-- The replacement that the requests of a category make, if there are any. -/
def Patch.merged? (naming : Naming) (category : HookCategory) : List HookRequest → Option Patch
  | [] => none
  | request :: rest => some (.merging naming category (request :: rest))

/-- The replacements that requests make, when it is known for each category which ones it has. -/
def mergedPatches (naming : Naming) (requests : HookCategory → List HookRequest) : List Patch :=
  (Tagged.all : List HookCategory).filterMap fun category =>
    Patch.merged? naming category (requests category)

section Merged

variable {naming : Naming} {requests : HookCategory → List HookRequest}

theorem Patch.merged?_eq_some {category : HookCategory} {asked : List HookRequest} {patch : Patch} :
    merged? naming category asked = some patch ↔
      asked ≠ [] ∧ patch = .merging naming category asked := by
  cases asked with
  | nil => simp [merged?]
  | cons request rest => simp [merged?, eq_comm]

theorem mem_mergedPatches {patch : Patch} :
    patch ∈ mergedPatches naming requests ↔
      ∃ category, requests category ≠ [] ∧
        patch = .merging naming category (requests category) := by
  rw [mergedPatches, List.mem_filterMap]
  constructor
  · rintro ⟨category, -, hpatch⟩
    exact ⟨category, Patch.merged?_eq_some.mp hpatch⟩
  · rintro ⟨category, hpatch⟩
    exact ⟨category, by cases category <;> decide, Patch.merged?_eq_some.mpr hpatch⟩

/-- There is at most one replacement for a category, and they stand in the order of the
categories. -/
theorem sublist_category_mergedPatches :
    ((mergedPatches naming requests).map (·.category)).Sublist Tagged.all := by
  have hcategories : (mergedPatches naming requests).map (·.category) =
      (Tagged.all : List HookCategory).filter fun category => !(requests category).isEmpty := by
    rw [mergedPatches, List.map_filterMap, ← List.filterMap_eq_filter]
    refine List.filterMap_congr fun category _ => ?_
    cases hrequests : requests category <;>
      simp [hrequests, Patch.merged?, Patch.merging, Option.guard]
  rw [hcategories]
  exact List.filter_sublist

/-- The replacement of a category. -/
theorem find?_mergedPatches (category : HookCategory) :
    (mergedPatches naming requests).find? (·.category = category) =
      Patch.merged? naming category (requests category) := by
  have hall : (Tagged.all : List HookCategory) = [.discountItems, .combineSuits] := rfl
  rw [mergedPatches, hall]
  cases hfirst : requests .discountItems <;> cases hsecond : requests .combineSuits <;>
    cases category <;> simp [hfirst, hsecond, Patch.merged?, Patch.merging]

end Merged

namespace HookLedger

/-! ### Adding requests -/

section Requests

variable {ledger next : HookLedger}

theorem requests_add {request : HookRequest} (h : ledger.add request = .ok next)
    (category : HookCategory) :
    next.requests category =
      ledger.requests category ++ [request].filter (·.category = category) := by
  obtain ⟨-, -, h⟩ := exists_of_bind_eq_ok h
  obtain rfl := Except.ok.inj h
  by_cases hcategory : request.category = category
  · simp [hcategory]
  · simp [hcategory, Ne.symm hcategory]

/-- **Requests come after those of their category**, in the order in which they are added. -/
theorem requests_addAll {requests : List HookRequest} (h : ledger.addAll requests = .ok next)
    (category : HookCategory) :
    next.requests category =
      ledger.requests category ++ requests.filter (·.category = category) := by
  induction requests generalizing ledger with
  | nil =>
      obtain rfl := Except.ok.inj h
      exact (List.append_nil _).symm
  | cons request requests ih =>
      rw [addAll, List.foldlM_cons] at h
      obtain ⟨middle, hadd, hrest⟩ := exists_of_bind_eq_ok h
      rw [ih hrest, requests_add hadd, List.append_assoc, ← List.filter_append,
        List.singleton_append]

end Requests

/-! ### Kept ledgers -/

/-- The ledger is **kept**: it has the standard templates, and each request stands under the
category of its change. -/
structure Kept (ledger : HookLedger) : Prop where
  templates : ledger.template? = standard.template?
  filed : ∀ category, ∀ request ∈ ledger.requests category, request.change.category = category

theorem standard_template? (category : HookCategory) :
    standard.template? category = some category.template := by
  cases category <;> rfl

/-- The template of a category makes the changes of the category. -/
theorem transform_template {category : HookCategory} {change : HookChange}
    (h : change.category = category) : category.template.transform change = .ok change.block := by
  subst h
  cases change <;> rfl

namespace Kept

variable {ledger : HookLedger}

theorem standard : HookLedger.standard.Kept := ⟨rfl, fun _ => nofun⟩

/-- The check looks at the templates only. -/
theorem check_eq (h : ledger.Kept) (request : HookRequest) :
    ledger.check request = request.check := by
  rw [check, h.templates, standard_template?]

theorem add (h : ledger.Kept) {request : HookRequest} (hrequest : request.check = .ok ()) :
    ∃ next, ledger.add request = .ok next ∧ next.Kept := by
  rw [HookLedger.add, h.check_eq, hrequest]
  refine ⟨_, rfl, h.templates, fun category other hother => ?_⟩
  dsimp only at hother
  split at hother
  · rename_i hcategory
    rw [List.mem_append, List.mem_singleton] at hother
    rcases hother with hother | rfl
    · exact h.filed category other hother
    · exact (HookRequest.check_eq_ok.mp hrequest).trans hcategory.symm
  · exact h.filed category other hother

/-- **A kept ledger takes all requests** that are filed under the category of their change. -/
theorem addAll (h : ledger.Kept) {requests : List HookRequest}
    (hrequests : ∀ request ∈ requests, request.check = .ok ()) :
    ∃ next, ledger.addAll requests = .ok next ∧ next.Kept := by
  induction requests generalizing ledger with
  | nil => exact ⟨ledger, rfl, h⟩
  | cons request requests ih =>
      rw [List.forall_mem_cons] at hrequests
      obtain ⟨next, hnext, hkept⟩ := h.add hrequests.1
      obtain ⟨last, hlast, hlastKept⟩ := ih hkept hrequests.2
      refine ⟨last, ?_, hlastKept⟩
      rw [HookLedger.addAll, List.foldlM_cons, hnext]
      exact hlast

/-- The blocks of the requests of a category are made. -/
theorem mapM_gated (h : ledger.Kept) (naming : Naming) (category : HookCategory) :
    (ledger.requests category).mapM (HookRequest.gated category.template naming) =
      .ok ((ledger.requests category).map (HookRequest.block naming)) := by
  refine mapM_eq_ok_map fun request hrequest => ?_
  rw [HookRequest.gated, transform_template (h.filed category request hrequest)]
  rfl

theorem patch?_eq (h : ledger.Kept) (naming : Naming) (category : HookCategory) :
    ledger.patch? naming category =
      .ok (Patch.merged? naming category (ledger.requests category)) := by
  have hgated := h.mapM_gated naming category
  rw [patch?, h.templates, standard_template?]
  cases hrequests : ledger.requests category with
  | nil => rfl
  | cons request rest =>
      rw [hrequests] at hgated
      simp only [Patch.ofRequests, hgated]
      rfl

/-- **The replacements of a kept ledger** are made, and gather its requests. -/
theorem patches_eq (h : ledger.Kept) (naming : Naming) :
    ledger.patches naming = .ok (mergedPatches naming ledger.requests) := by
  have hpatches : (Tagged.all : List HookCategory).mapM (ledger.patch? naming) =
      .ok (Tagged.all.map fun category =>
        Patch.merged? naming category (ledger.requests category)) :=
    mapM_eq_ok_map fun category _ => h.patch?_eq naming category
  rw [HookLedger.patches, hpatches]
  rfl

end Kept

end HookLedger

end JokerScript
