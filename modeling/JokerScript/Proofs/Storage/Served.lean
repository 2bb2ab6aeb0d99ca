import JokerScript.Proofs.Storage.Names

/-!
# Served Requests

Whatever is compiled asks for at most one name: an effect for the slot of its quantity, a
condition for the bounds of its count. The storage **serves** the request: it reserves the
first free name with its forms, and variables are declared under forms of that name.

A served request only **extends** the storage. So everything that is declared keeps its
place and its value to the end, and the forms that one request reserves are those of no
other request.

## Main definitions

* `SlotRequest`, `SlotRequest.slot`, `SlotRequest.forms` — a request, and what it reserves.
* `Storage.Serves` — the storage after a request.
* `Storage.Extends` — a storage with more names and variables.

## Main results

* `Storage.Serves.reachable`, `Storage.Serves.extended` — a served request.
* `Storage.Serves.fresh`, `Storage.Serves.disjoint_forms` — what it reserves was free.
-/

namespace JokerScript

/-! ### Requests -/

/-- A request for a name. -/
structure SlotRequest where
  base : String
  suffixes : List String
deriving DecidableEq, Repr

namespace SlotRequest

/-- The name that the request gets. -/
def slot (request : SlotRequest) (s : Storage) : String :=
  s.claimedName request.base request.suffixes

/-- The names that the request reserves. -/
def forms (request : SlotRequest) (s : Storage) : List String :=
  Storage.forms request.suffixes (request.slot s)

end SlotRequest

namespace Storage

/-- The storage **serves** a request, if there is one, and declares variables for it. -/
inductive Serves (s : Storage) : Option SlotRequest → List StoredVariable → Storage → Prop
  | nothing : Serves s none [] s
  | slot {request : SlotRequest} {vars : List StoredVariable}
      (hforms : ∀ v ∈ vars, v.name ∈ request.forms s) (hnodup : (vars.map (·.name)).Nodup) :
      Serves s (some request) vars
        ((s.claim request.base request.suffixes).2.addingAll vars)

/-- One storage **extends** another: it grows, and the variables keep their places. -/
structure Extends (s t : Storage) : Prop extends Grows s t where
  declared_keeps : s.declared <+: t.declared

namespace Extends

theorem refl (s : Storage) : s.Extends s :=
  ⟨Grows.refl s, List.prefix_rfl⟩

theorem trans {s t u : Storage} (hst : s.Extends t) (htu : t.Extends u) : s.Extends u :=
  ⟨hst.toGrows.trans htu.toGrows, hst.declared_keeps.trans htu.declared_keeps⟩

theorem names_subset {s t : Storage} (h : s.Extends t) : s.names ⊆ t.names :=
  List.map_subset _ h.declared

end Extends

/-! ### Served requests -/

namespace Serves

variable {s t : Storage} {request? : Option SlotRequest} {vars : List StoredVariable}

/-- **The variables come after the earlier ones.** -/
theorem declared (h : s.Serves request? vars t) : t.declared = s.declared ++ vars := by
  cases h with
  | nothing => exact (List.append_nil _).symm
  | slot => rw [declared_addingAll, declared_claim]

theorem names (h : s.Serves request? vars t) : t.names = s.names ++ vars.map (·.name) := by
  rw [Storage.names, h.declared, List.map_append, Storage.names]

theorem reachable (h : s.Serves request? vars t) (hs : s.Reachable) : t.Reachable := by
  cases h with
  | nothing => exact hs
  | slot hforms hnodup =>
      exact (hs.claim _ _).addingAll (fun v hv => hs.notMem_names_of_claim (hforms v hv)) hnodup

theorem extended (h : s.Serves request? vars t) : s.Extends t := by
  cases h with
  | nothing => exact Extends.refl s
  | slot hforms hnodup =>
      refine ⟨Grows.claim_addingAll s _ _ hforms, ?_⟩
      rw [declared_addingAll, declared_claim]
      exact List.prefix_append _ _

/-- **What a request reserves was free**, and is taken from then on. -/
theorem fresh {request : SlotRequest} (h : s.Serves (some request) vars t) :
    ∀ form ∈ request.forms s, form ∉ s.taken ∧ form ∈ t.taken := by
  cases h with
  | slot hforms hnodup =>
      intro form hform
      refine ⟨(s.isFree_iff _ _).mp (s.isFree_claimedName _ _) form hform, ?_⟩
      exact taken_subset_addingAll _ _ (mem_claim.mpr (Or.inl hform))

/-- **Two requests share no form** if one is served after the other. -/
theorem disjoint_forms {request other : SlotRequest} {u v : Storage} {more : List StoredVariable}
    (h : s.Serves (some request) vars t) (hother : u.Serves (some other) more v)
    (hlater : t.Extends u) : List.Disjoint (request.forms s) (other.forms u) :=
  fun form hform hmem => (hother.fresh form hmem).1 (hlater.taken (h.fresh form hform).2)

/-- A form that is not declared for the request is not declared at all. -/
theorem notMem_names {request : SlotRequest} (h : s.Serves (some request) vars t)
    (hs : s.Reachable) {form : String} (hform : form ∈ request.forms s)
    (hvars : form ∉ vars.map (·.name)) : form ∉ t.names := by
  rw [h.names, List.mem_append, not_or]
  exact ⟨hs.notMem_names_of_claim hform, hvars⟩

end Serves

end Storage

end JokerScript
