import Mathlib.Data.List.Induction
import JokerScript.Proofs.Draft.Conformance
import JokerScript.Proofs.Hook.Ledger

/-!
# Ledgers with Any Templates

A ledger that was given some templates is asked to take requests, one after the other. It keeps
no template but the last one of each category, and it **takes** a request if it has a template of
the category that the request is filed under, and if the change of the request belongs to that
category. A request that it does not take leaves it as it was.

The templates are any ones, and a template may refuse the change of a request that the ledger took.
At the end the ledger makes its replacements if no template refuses. Otherwise it reports the first
refusal, where the requests of the first category come before those of the second one.

## Main definitions

* `Template.last?` — the template of a category.
* `Template.Takes`, `Template.taken` — the requests that a ledger takes.
* `HookLedger.submit`, `HookLedger.submitAll` — the ledger after requests, taken or not.
* `Patch.Gathers` — the replacement of a category for its requests.

## Main results

* `HookLedger.conforms_add` — one more request.
* `HookLedger.submitAll_spec` — what a ledger holds after a run of requests.
* `HookLedger.submitAll_conforms` — the requests that are taken, and the replacements at the end.
-/

namespace JokerScript

/-! ### Faults in parts of a list -/

section Faults

variable {ε α β : Type} {accepted : α → Prop} {fault : α → ε → Prop} {e : ε}

/-- What is asked of the items of a list may be told in other words. -/
theorem firstFault_congr {accepted' : α → Prop} {fault' : α → ε → Prop} {as : List α}
    (h : ∀ a ∈ as, (accepted a ↔ accepted' a) ∧ ∀ e, fault a e ↔ fault' a e) :
    FirstFault accepted fault as e ↔ FirstFault accepted' fault' as e := by
  induction as with
  | nil => simp [FirstFault]
  | cons a as ih =>
      obtain ⟨⟨haccepted, hfault⟩, has⟩ := List.forall_mem_cons.mp h
      rw [firstFault_cons, firstFault_cons, haccepted, hfault, ih has]

theorem firstFault_append {as bs : List α} :
    FirstFault accepted fault (as ++ bs) e ↔
      FirstFault accepted fault as e ∨
        (∀ a ∈ as, accepted a) ∧ FirstFault accepted fault bs e := by
  induction as with
  | nil => simp [FirstFault]
  | cons a as ih =>
      rw [List.cons_append, firstFault_cons, firstFault_cons, ih, List.forall_mem_cons]
      tauto

/-- The first fault of a list that is made of parts is the first one of the first faulty part. -/
theorem firstFault_flatMap {f : β → List α} {bs : List β} :
    FirstFault (fun b => ∀ a ∈ f b, accepted a) (fun b => FirstFault accepted fault (f b)) bs e ↔
      FirstFault accepted fault (bs.flatMap f) e := by
  induction bs with
  | nil => simp [FirstFault]
  | cons b bs ih => rw [firstFault_cons, List.flatMap_cons, firstFault_append, ih]

end Faults

/-! ### Templates and the requests that they take -/

namespace Template

/-- **The template of a category** is the last one that was given. -/
def last? (templates : List Template) (category : HookCategory) : Option Template :=
  templates.reverse.find? (·.category = category)

/-- With these templates **the request is taken**. -/
def Takes (templates : List Template) (request : HookRequest) : Prop :=
  (∃ template ∈ templates, template.category = request.category) ∧
    request.change.category = request.category

instance (templates : List Template) (request : HookRequest) :
    Decidable (Takes templates request) :=
  inferInstanceAs (Decidable (_ ∧ _))

/-- The requests of a category that are taken, in their order. -/
def taken (templates : List Template) (requests : List HookRequest) (category : HookCategory) :
    List HookRequest :=
  requests.filter fun request => Takes templates request ∧ request.category = category

variable {templates : List Template} {requests : List HookRequest} {category : HookCategory}

theorem exists_last?_iff :
    (∃ template, last? templates category = some template) ↔
      ∃ template ∈ templates, template.category = category := by
  rw [last?, ← Option.isSome_iff_exists, List.find?_isSome]
  simp

theorem mem_of_last?_eq_some {template : Template} (h : last? templates category = some template) :
    template ∈ templates :=
  List.mem_reverse.mp (List.mem_of_find?_eq_some h)

/-- One more template takes the place of the others of its category. -/
theorem last?_append_singleton {template : Template} :
    last? (templates ++ [template]) category =
      if category = template.category then some template else last? templates category := by
  rw [last?, List.reverse_append, List.reverse_singleton, List.singleton_append, List.find?_cons]
  by_cases hcategory : category = template.category
  · simp [hcategory]
  · simp [hcategory, Ne.symm hcategory, last?]

theorem mem_taken {request : HookRequest} :
    request ∈ taken templates requests category ↔
      request ∈ requests ∧ Takes templates request ∧ request.category = category := by
  rw [taken, List.mem_filter, decide_eq_true_eq]

/-- A request that is taken stands under its category, which has a template. -/
theorem exists_last?_of_mem_taken {request : HookRequest}
    (h : request ∈ taken templates requests category) :
    request.category = category ∧ ∃ template, last? templates category = some template := by
  obtain ⟨-, ⟨htemplate, -⟩, rfl⟩ := mem_taken.mp h
  exact ⟨rfl, exists_last?_iff.mpr htemplate⟩

/-- The template of its category accepts the change of the request. -/
def Accepts (templates : List Template) (request : HookRequest) : Prop :=
  ∃ template block,
    last? templates request.category = some template ∧
      template.transform request.change = .ok block

/-- The template of its category refuses the change of the request with this error. -/
def Refuses (templates : List Template) (request : HookRequest) (error : CompileError) : Prop :=
  ∃ template,
    last? templates request.category = some template ∧
      template.transform request.change = .error error

end Template

/-- **The replacement gathers the requests** of a category under its template. -/
structure Patch.Gathers (category : HookCategory) (template : Template)
    (requests : List HookRequest) (patch : Patch) : Prop where
  category : patch.category = category
  target : patch.target = template.target
  owners : patch.owners = requests.map (·.owner)

namespace HookLedger

open Template

/-! ### One request -/

variable {templates : List Template}

theorem template?_ofTemplates (category : HookCategory) :
    (ofTemplates templates).template? category = last? templates category := by
  induction templates using List.reverseRecOn with
  | nil => rfl
  | append_singleton templates template ih =>
      rw [last?_append_singleton, ← ih, ofTemplates, List.foldl_append]
      rfl

theorem requests_ofTemplates (category : HookCategory) :
    (ofTemplates templates).requests category = [] := by
  induction templates using List.reverseRecOn with
  | nil => rfl
  | append_singleton templates template ih =>
      rw [ofTemplates, List.foldl_append]
      exact ih

section Add

variable {ledger : HookLedger} {request : HookRequest}

theorem add_of_template?_eq_none (h : ledger.template? request.category = none) :
    ledger.add request = .error (.unknownHookCategory (Tagged.tag request.category)) := by
  rw [add, check, h]
  rfl

theorem add_of_mismatch {template : Template}
    (h : ledger.template? request.category = some template)
    (hchange : request.change.category ≠ request.category) :
    ledger.add request =
      .error (.hookParamsMismatch request.category request.change.category) := by
  rw [add, check, h, HookRequest.check, if_neg hchange]
  rfl

theorem exists_add {template : Template} (h : ledger.template? request.category = some template)
    (hchange : request.change.category = request.category) :
    ∃ next, ledger.add request = .ok next ∧ next.template? = ledger.template? := by
  have hcheck : ledger.check request = .ok () := by
    rw [check, h]
    exact HookRequest.check_eq_ok.mpr hchange
  rw [add, hcheck]
  exact ⟨_, rfl, rfl⟩

end Add

/-- **One more request** is taken or not, whatever the ledger holds already. Requests without a
template of their category are at fault before those whose change is of another category. -/
theorem conforms_add {ledger : HookLedger} (h : ledger.template? = last? templates)
    (request : HookRequest) :
    Conforms (ledger.add request) (Takes templates request)
      (fun next => next.template? = ledger.template? ∧
        ∀ category, next.requests category =
          ledger.requests category ++ [request].filter (·.category = category))
      fun error =>
        (¬ (∃ template ∈ templates, template.category = request.category) ∧
          error = .unknownHookCategory (Tagged.tag request.category)) ∨
        ((∃ template ∈ templates, template.category = request.category) ∧
          request.change.category ≠ request.category ∧
          error = .hookParamsMismatch request.category request.change.category) := by
  rw [← exists_last?_iff, ← h, Takes, ← exists_last?_iff, ← h]
  cases htemplate : ledger.template? request.category with
  | none =>
      refine conforms_of_total (.inr ⟨_, .inl ⟨by simp, rfl⟩⟩) (by simp) ?_
      rintro error (⟨-, rfl⟩ | ⟨⟨template, hsome⟩, -⟩)
      · exact add_of_template?_eq_none htemplate
      · cases hsome
  | some template =>
      by_cases hchange : request.change.category = request.category
      · obtain ⟨next, hnext, hkept⟩ := exists_add htemplate hchange
        refine conforms_of_total (.inl ⟨⟨template, rfl⟩, hchange⟩)
          (fun _ => ⟨next, hnext, hkept, requests_add hnext⟩) ?_
        rintro error (⟨hnone, -⟩ | ⟨-, hne, -⟩)
        · exact absurd ⟨template, rfl⟩ hnone
        · exact absurd hchange hne
      · refine conforms_of_total (.inr ⟨_, .inr ⟨⟨template, rfl⟩, hchange, rfl⟩⟩)
          (fun htaken => absurd htaken.2 hchange) ?_
        rintro error (⟨hnone, -⟩ | ⟨-, -, rfl⟩)
        · exact absurd ⟨template, rfl⟩ hnone
        · exact add_of_mismatch htemplate hchange

/-! ### A run of requests -/

/-- The ledger after a request, which leaves it as it was if it is not taken. -/
def submit (ledger : HookLedger) (request : HookRequest) : HookLedger :=
  match ledger.add request with
  | .ok next => next
  | .error _ => ledger

/-- The ledger after some requests. -/
def submitAll (ledger : HookLedger) (requests : List HookRequest) : HookLedger :=
  requests.foldl submit ledger

/-- A request that is not taken leaves the ledger as it was. -/
theorem submit_of_not_takes {ledger : HookLedger} (h : ledger.template? = last? templates)
    {request : HookRequest} (htaken : ¬ Takes templates request) :
    ledger.submit request = ledger := by
  have hadd := conforms_add h request
  obtain ⟨error, herror⟩ := hadd.total.resolve_left htaken
  rw [submit, (hadd.fails error).mpr herror]

/-- What one request does to a ledger. -/
theorem submit_spec {ledger : HookLedger} (h : ledger.template? = last? templates)
    (request : HookRequest) :
    (ledger.submit request).template? = last? templates ∧
      ∀ category, (ledger.submit request).requests category =
        ledger.requests category ++ taken templates [request] category := by
  by_cases htaken : Takes templates request
  · obtain ⟨next, hnext, hkept, hrequests⟩ := (conforms_add h request).exists_ok htaken
    rw [submit, hnext]
    refine ⟨hkept.trans h, fun category => ?_⟩
    rw [hrequests]
    by_cases hcategory : request.category = category <;> simp [taken, htaken, hcategory]
  · rw [submit_of_not_takes h htaken]
    exact ⟨h, fun category => by simp [taken, htaken]⟩

/-- **A run of requests** leaves the templates as they are, and each category has the requests of
it that are taken, in their order. -/
theorem submitAll_spec {ledger : HookLedger} (h : ledger.template? = last? templates)
    (requests : List HookRequest) :
    (ledger.submitAll requests).template? = last? templates ∧
      ∀ category, (ledger.submitAll requests).requests category =
        ledger.requests category ++ taken templates requests category := by
  induction requests generalizing ledger with
  | nil => exact ⟨h, fun category => (List.append_nil _).symm⟩
  | cons request requests ih =>
      obtain ⟨htemplates, hrequests⟩ := submit_spec h request
      obtain ⟨hlast, hall⟩ := ih htemplates
      refine ⟨hlast, fun category => (hall category).trans ?_⟩
      rw [hrequests, List.append_assoc, taken, taken, taken, ← List.filter_append,
        List.singleton_append]

/-! ### Replacements -/

theorem conforms_gated (template : Template) (naming : Naming) (request : HookRequest) :
    Conforms (request.gated template naming)
      (∃ block, template.transform request.change = .ok block)
      (fun _ => True) fun error => template.transform request.change = .error error := by
  rw [HookRequest.gated]
  cases htransform : template.transform request.change with
  | ok block =>
      refine conforms_of_total (.inl ⟨block, rfl⟩) (fun _ => ⟨_, rfl, trivial⟩) fun error h => ?_
      cases h
  | error e =>
      refine conforms_of_total (.inr ⟨e, rfl⟩) (fun h => ?_) fun error herror => ?_
      · obtain ⟨block, hblock⟩ := h
        cases hblock
      · obtain rfl := Except.error.inj herror
        rfl

/-- A template makes its replacement if it accepts all changes, and fails with the first refusal
otherwise. -/
theorem conforms_ofRequests (template : Template) (naming : Naming) (category : HookCategory)
    (requests : List HookRequest) :
    Conforms (Patch.ofRequests template naming category requests)
      (∀ request ∈ requests, ∃ block, template.transform request.change = .ok block)
      (Patch.Gathers category template requests)
      (FirstFault (fun request => ∃ block, template.transform request.change = .ok block)
        (fun request error => template.transform request.change = .error error) requests) := by
  have hchanges := Conforms.mapM (conforms_gated template naming) requests
  refine (hchanges.bind fun changes _ => Conforms.ok _).congr ?_ ?_ ?_
  · simp
  · rintro _ ⟨changes, -, rfl⟩
    exact ⟨rfl, rfl, rfl⟩
  · simp

/-- What is made of the requests of a category, which is nothing if there are none. -/
def Made (templates : List Template) (category : HookCategory) (requests : List HookRequest) :
    Option Patch → Prop
  | none => requests = []
  | some patch => requests ≠ [] ∧
      ∃ template, last? templates category = some template ∧
        patch.Gathers category template requests

/-- **The replacement of a category** is made by its template. -/
theorem conforms_patch? {ledger : HookLedger} (naming : Naming) {category : HookCategory}
    (h : ledger.template? = last? templates)
    (hfiled : ∀ request ∈ ledger.requests category,
      request.category = category ∧ ∃ template, last? templates category = some template) :
    Conforms (ledger.patch? naming category)
      (∀ request ∈ ledger.requests category, Accepts templates request)
      (Made templates category (ledger.requests category))
      (FirstFault (Accepts templates) (Refuses templates) (ledger.requests category)) := by
  rw [patch?, h]
  cases hrequests : ledger.requests category with
  | nil => exact (Conforms.ok none).congr (by simp) (by rintro _ rfl; rfl) (by simp [FirstFault])
  | cons request rest =>
      rw [hrequests] at hfiled
      obtain ⟨-, template, htemplate⟩ := hfiled request List.mem_cons_self
      -- All of the requests have the same template, since they stand under the same category.
      have hlast : ∀ other ∈ request :: rest, last? templates other.category = some template := by
        intro other hother
        rw [(hfiled other hother).1, htemplate]
      have haccepts : ∀ other ∈ request :: rest,
          (∃ block, template.transform other.change = .ok block) ↔ Accepts templates other := by
        intro other hother
        simp [Accepts, hlast other hother]
      have hrefuses : ∀ other ∈ request :: rest, ∀ error,
          template.transform other.change = .error error ↔ Refuses templates other error := by
        intro other hother error
        simp [Refuses, hlast other hother]
      simp only [htemplate]
      refine ((conforms_ofRequests template naming category (request :: rest)).map ?_).congr
        (forall₂_congr haccepts) (fun _ => id) fun error => ?_
      · exact fun patch hpatch => ⟨by simp, template, htemplate, hpatch⟩
      · exact firstFault_congr fun other hother => ⟨haccepts other hother, hrefuses other hother⟩

/-- The replacements that are made, for the categories that have requests. -/
theorem forall₂_gathers {categories : List HookCategory} {found : List (Option Patch)}
    {requests : HookCategory → List HookRequest}
    (h : List.Forall₂ (fun category => Made templates category (requests category))
      categories found) :
    List.Forall₂
      (fun category patch => ∃ template, last? templates category = some template ∧
        patch.Gathers category template (requests category))
      (categories.filter fun category => requests category ≠ []) (found.filterMap id) := by
  induction h with
  | nil => exact .nil
  | @cons category patch? categories found hmade _ ih =>
      cases patch? with
      | none =>
          have hnone : requests category = [] := hmade
          rw [List.filter_cons_of_neg (by simpa using hnone)]
          exact ih
      | some patch =>
          obtain ⟨hsome, hpatch⟩ := hmade
          rw [List.filter_cons_of_pos (by simpa using hsome)]
          exact .cons hpatch ih

/-- **The replacements** are made category by category, and fail with the first refusal. -/
theorem conforms_patches {ledger : HookLedger} (naming : Naming)
    (h : ledger.template? = last? templates)
    (hfiled : ∀ category, ∀ request ∈ ledger.requests category,
      request.category = category ∧ ∃ template, last? templates category = some template) :
    Conforms (ledger.patches naming)
      (∀ category, ∀ request ∈ ledger.requests category, Accepts templates request)
      (List.Forall₂
        (fun category patch => ∃ template, last? templates category = some template ∧
          patch.Gathers category template (ledger.requests category))
        ((Tagged.all : List HookCategory).filter fun category => ledger.requests category ≠ []))
      (FirstFault (Accepts templates) (Refuses templates)
        ((Tagged.all : List HookCategory).flatMap ledger.requests)) := by
  have hfound := Conforms.mapM (fun category => conforms_patch? naming h (hfiled category))
    (Tagged.all : List HookCategory)
  refine (hfound.bind fun found _ => Conforms.ok (found.filterMap id)).congr ?_ ?_ fun error => ?_
  · rw [and_true]
    exact ⟨fun hall category => hall category (by cases category <;> decide),
      fun hall category _ => hall category⟩
  · rintro _ ⟨found, hmade, rfl⟩
    exact forall₂_gathers hmade
  · rw [and_false, or_false]
    exact firstFault_flatMap

/-- **A ledger with any templates.** After any run of requests it takes just those that have a
template and whose change belongs to their category, it changes nothing if it does not take one,
and counts those of each category that it took. Its replacements are made if all requests that it
took are accepted, and there is one for each category that has any, in the order of the categories.
Otherwise it fails with the first refusal in that order. That is always a refusal by a template, so
it is no unknown category unless a template reports one. -/
theorem submitAll_conforms (templates : List Template) (requests : List HookRequest)
    (naming : Naming) :
    let ledger := (ofTemplates templates).submitAll requests
    let asked := taken templates requests
    (∀ request, ((∃ next, ledger.add request = .ok next) ↔ Takes templates request) ∧
      (¬ Takes templates request → ledger.submit request = ledger)) ∧
    (∀ category, ledger.count category = (asked category).length) ∧
    Conforms (ledger.patches naming)
      (∀ request ∈ requests, Takes templates request → Accepts templates request)
      (List.Forall₂
        (fun category patch => ∃ template, last? templates category = some template ∧
          patch.Gathers category template (asked category))
        ((Tagged.all : List HookCategory).filter fun category => asked category ≠ []))
      (FirstFault (Accepts templates) (Refuses templates)
        ((Tagged.all : List HookCategory).flatMap asked)) ∧
    ∀ tag,
      (∀ template ∈ templates, ∀ change,
        template.transform change ≠ .error (.unknownHookCategory tag)) →
      ledger.patches naming ≠ .error (.unknownHookCategory tag) := by
  intro ledger asked
  obtain ⟨htemplates, hrequests⟩ : ledger.template? = _ ∧ _ :=
    submitAll_spec (funext template?_ofTemplates) requests
  have hasked : ledger.requests = asked := funext fun category => by
    rw [hrequests, requests_ofTemplates, List.nil_append]
  have hfiled : ∀ category, ∀ request ∈ ledger.requests category,
      request.category = category ∧ ∃ template, last? templates category = some template :=
    fun category request hrequest => exists_last?_of_mem_taken (hasked ▸ hrequest)
  have hpatches := conforms_patches naming htemplates hfiled
  rw [hasked] at hpatches
  refine ⟨fun request => ?_, fun category => by rw [count, hasked], ?_, ?_⟩
  · exact ⟨(conforms_add htemplates request).succeeds, submit_of_not_takes htemplates⟩
  · refine hpatches.congr
      ⟨fun hall request hrequest htaken => ?_, fun hall category request h => ?_⟩
      (fun _ => id) fun _ => .rfl
    · exact hall request.category request (mem_taken.mpr ⟨hrequest, htaken, rfl⟩)
    · obtain ⟨hrequest, htaken, -⟩ := mem_taken.mp h
      exact hall request hrequest htaken
  · intro tag hknown herror
    obtain ⟨-, request, -, -, -, template, htemplate, hrefuses⟩ := (hpatches.fails _).mp herror
    exact hknown template (mem_of_last?_eq_some htemplate) request.change hrefuses

end HookLedger

end JokerScript
