import JokerScript.Code.Effect.Basic
import JokerScript.Proofs.Resolve.Settled

/-!
# Bound Quantities

An effect claims a name for its quantity and resolves the quantity under it. From a
reachable storage this never fails, whatever the quantity is.

## Main definitions

* `EffectKind.quantity?` — the quantity of an effect.
* `BoundQuantity.ofResolved` — the statements and the value of a resolved quantity.

## Main results

* `run_bindQuantity` — the run of `bindQuantity`.
-/

namespace JokerScript

open Lua

/-- The quantity of an effect, if its kind has one. -/
def EffectKind.quantity? : EffectKind → Option Quantity
  | editHand change => some change.value
  | modifyBlind change => some change.value
  | createJoker _ | destroyConsumable _ | discountItems _ | freeRerolls _ | combineSuits _ => none

/-- A resolved quantity under a claimed name, ready for use: a draw is bound to a local
variable. -/
def BoundQuantity.ofResolved (slot : String) (r : Resolved) : BoundQuantity :=
  if r.isStable then
    { slot, setup := [], value := r.expr }
  else
    { slot, setup := [.letLocal (slot ++ "_value") r.expr], value := .path (slot ++ "_value") }

@[simp] theorem BoundQuantity.slot_ofResolved (slot : String) (r : Resolved) :
    (BoundQuantity.ofResolved slot r).slot = slot := by
  rw [ofResolved]
  split <;> rfl

theorem mem_forms_of_subset {suffixes more : List String} (h : suffixes ⊆ more) {name form : String}
    (hf : form ∈ Storage.forms suffixes name) : form ∈ Storage.forms more name := by
  obtain ⟨suffix, hsuffix, rfl⟩ := Storage.mem_forms.mp hf
  exact Storage.mem_forms.mpr ⟨suffix, List.cons_subset_cons "" h hsuffix, rfl⟩

/-- **Binding a quantity** claims a name, resolves the quantity, and declares what the
quantity needs. -/
theorem run_bindQuantity (setting : Setting) (base : String) (suffixes : List String)
    (hsuffixes : valueSuffixes ⊆ suffixes) (q : Quantity) (owner : EffectId) {s : Storage}
    (hs : s.Reachable) :
    ∃ r, (bindQuantity setting base suffixes q owner).run s =
        (.ok (.ofResolved (s.claimedName base suffixes) r),
          (s.claim base suffixes).2.addingAll r.configVariables) ∧
      r = (Source.ofQuantity q).settled setting.naming
        (.declared (s.claimedName base suffixes) owner.text) (s.claim base suffixes).2
        (s.claimedName base suffixes) := by
  refine ⟨_, ?_, rfl⟩
  have hnew : ∀ form ∈ Storage.forms valueSuffixes (s.claimedName base suffixes),
      form ∉ (s.claim base suffixes).2.names := fun form hf =>
    hs.notMem_names_of_claim (mem_forms_of_subset hsuffixes hf)
  rw [bindQuantity, Resolver.run_bind_of_ok _ (Resolver.run_claim base suffixes s),
    Resolver.run_bind_of_ok _ (run_resolve_declared setting.naming _ _ owner.text q hnew),
    BoundQuantity.ofResolved]
  split <;> rfl

end JokerScript
