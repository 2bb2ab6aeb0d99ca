import JokerScript.Code.Effect
import JokerScript.Proofs.Effect.Bound
import JokerScript.Proofs.Resolve.Worth

/-!
# Slots of Held Changes

While a joker is held, each of its effects on the number of hands keeps its records in
variables of its own slot. Effects of one joker are compiled one after the other, from any
reachable storage and without failure, and no form of one slot is a form of another.

## Main definitions

* `HeldChange` — what is left of an effect on the number of hands of a held joker.
* `HeldChange.Fits` — the storage holds what the blocks of the effect need.

## Main results

* `run_compile_held` — the compilation of one effect.
* `run_mapM_compile_held` — the compilation of a list of effects.
-/

namespace JokerScript

open Lua

/-! ### Held changes -/

/-- What the compilation makes of an effect on the number of hands of a held joker. -/
structure HeldChange where
  operation : HandOperation
  /-- The claimed name. -/
  slot : String
  resolved : Resolved

namespace HeldChange

/-- The variable that records the change that was applied. -/
def applied (c : HeldChange) : String := HandChange.appliedName c.slot

/-- The variable that records the number seen before. -/
def original (c : HeldChange) : String := HandChange.snapshotName c.slot

/-- The quantity, ready for use. -/
def quantity (c : HeldChange) : BoundQuantity := .ofResolved c.slot c.resolved

/-- The blocks for gaining and losing the joker. -/
def blocks (c : HeldChange) : EffectBlocks :=
  match c.operation with
  | .add => HandChange.heldAdd c.quantity
  | .subtract => HandChange.heldSubtract c.quantity
  | .set => HandChange.heldSet c.quantity

/-- The variables that the compilation declares. -/
def vars (c : HeldChange) : List StoredVariable :=
  c.resolved.configVariables ++
    match c.operation with
    | .add | .subtract => [⟨c.applied, Number.zero false⟩]
    | .set => []

/-- The forms that the slot reserves. -/
def forms (c : HeldChange) : List String := Storage.forms HandChange.passiveSuffixes c.slot

theorem applied_mem_forms (c : HeldChange) : c.applied ∈ c.forms :=
  Storage.mem_forms.mpr ⟨"_applied", by decide, rfl⟩

theorem original_mem_forms (c : HeldChange) : c.original ∈ c.forms :=
  Storage.mem_forms.mpr ⟨"_original", by decide, rfl⟩

theorem applied_ne_original (c : HeldChange) : c.applied ≠ c.original := fun h =>
  absurd ((String.append_right_inj c.slot).mp h) (by simp)

/-- The records are no forms that a quantity needs. -/
theorem records_notMem_forms (c : HeldChange) :
    c.applied ∉ Storage.forms valueSuffixes c.slot ∧
      c.original ∉ Storage.forms valueSuffixes c.slot :=
  ⟨Storage.append_notMem_forms (by decide), Storage.append_notMem_forms (by decide)⟩

/-- The declared variables are distinct forms of the slot, and the number seen before is not
among them. -/
theorem vars_spec (c : HeldChange)
    (hforms : ∀ v ∈ c.resolved.configVariables, v.name ∈ Storage.forms valueSuffixes c.slot)
    (hnodup : (c.resolved.configVariables.map (·.name)).Nodup) :
    (∀ v ∈ c.vars, v.name ∈ c.forms ∧ v.name ≠ c.original) ∧ (c.vars.map (·.name)).Nodup := by
  obtain ⟨happlied, horiginal⟩ := c.records_notMem_forms
  have hresolved : ∀ v ∈ c.resolved.configVariables, v.name ∈ c.forms ∧ v.name ≠ c.original :=
    fun v hv => ⟨mem_forms_of_subset (by decide) (hforms v hv), fun heq =>
      horiginal (heq ▸ hforms v hv)⟩
  have hadded : ∀ vs : List StoredVariable,
      vs = c.resolved.configVariables ++ [⟨c.applied, Number.zero false⟩] →
      (∀ v ∈ vs, v.name ∈ c.forms ∧ v.name ≠ c.original) ∧ (vs.map (·.name)).Nodup := by
    rintro vs rfl
    constructor
    · intro v hv
      rcases List.mem_append.mp hv with hold | hnew
      · exact hresolved v hold
      · obtain rfl := List.mem_singleton.mp hnew
        exact ⟨c.applied_mem_forms, c.applied_ne_original⟩
    · rw [List.map_append]
      refine List.nodup_append.mpr ⟨hnodup, List.nodup_singleton _, ?_⟩
      rintro name hold other hnew rfl
      obtain ⟨v, hv, rfl⟩ := List.mem_map.mp hold
      have heq : v.name = c.applied := List.mem_singleton.mp hnew
      exact happlied (heq ▸ hforms v hv)
  rw [vars]
  cases c.operation with
  | add => exact hadded _ rfl
  | subtract => exact hadded _ rfl
  | set =>
      rw [List.append_nil]
      exact ⟨hresolved, hnodup⟩

end HeldChange

/-! ### Compilation -/

/-- A variable that generated code can read: it is declared, and its name is one field of a
path. -/
def Storage.CanRead (s : Storage) (name : String) : Prop := name ∈ s.names ∧ DotFree name

/-- The storage holds what the expression of a resolved quantity reads. Factors and offsets
of a reference to the game are exact numbers. -/
def Resolved.ReadsFrom (s : Storage) : Resolved → Prop
  | literal _ slot => ∃ name ∈ slot, s.CanRead name
  | gameState e => ∃ v : GameVar, v.expr? = some e ∧ v.IsExact
  | range name .. => s.CanRead (minName name) ∧ s.CanRead (maxName name)
  | named name => s.CanRead name

/-- Only an identifier is taken for a name. -/
theorem isIdentifier_of_named {q : Quantity} {name : String}
    (h : Source.ofQuantity q = .named name) : Lua.isIdentifier name = true := by
  have hnumber : ∀ n : Number, Source.ofNumber n ≠ .named name := by
    intro n hn
    rw [Source.ofNumber] at hn
    split at hn <;> cases hn
  cases q with
  | number n => exact absurd h (hnumber n)
  | text t =>
      rw [Source.ofQuantity, Source.ofChars] at h
      split at h
      · cases h
      · split at h
        · cases h
        · split at h
          · rename_i hidentifier
            obtain rfl := Source.named.inj h
            exact hidentifier
          · split at h
            · exact absurd h (hnumber _)
            · cases h

/-- An identifier is one field of a path. -/
theorem dotFree_of_isIdentifier {name : String} (h : Lua.isIdentifier name = true) :
    DotFree name := by
  rw [Lua.isIdentifier, Bool.and_eq_true] at h
  obtain ⟨hshape, -⟩ := h
  rw [DotFree]
  cases hlist : name.toList with
  | nil => exact List.not_mem_nil
  | cons c cs =>
      rw [hlist, Lua.isNameShape, Bool.and_eq_true, List.all_eq_true] at hshape
      obtain ⟨hstart, hrest⟩ := hshape
      intro hdot
      rcases List.mem_cons.mp hdot with rfl | hmem
      · exact absurd hstart (by decide)
      · exact absurd (hrest '.' hmem) (by decide)

/-- What a settled quantity of a slot reads is declared, once its own variables are. -/
theorem readsFrom_settled {naming : Naming} {name owner : String} {s t : Storage} {q : Quantity}
    (hexact : (Source.ofQuantity q).IsExact) (hs : s.names ⊆ t.names)
    (hvars : ∀ v ∈
      ((Source.ofQuantity q).settled naming (.declared name owner) s name).configVariables,
      t.CanRead v.name) :
    ((Source.ofQuantity q).settled naming (.declared name owner) s name).ReadsFrom t := by
  have hliteral : ∀ n : Number,
      (∀ v ∈ ((ResolveRequest.declared name owner).literal n).configVariables, t.CanRead v.name) →
        ((ResolveRequest.declared name owner).literal n).ReadsFrom t :=
    fun n h => ⟨name, rfl, h ⟨name, n⟩ List.mem_cons_self⟩
  cases hq : Source.ofQuantity q with
  | gameVar v =>
      rw [hq] at hvars hexact
      cases hv : v.expr? with
      | some e =>
          simp only [Source.settled, hv]
          exact ⟨v, hv, hexact⟩
      | none =>
          simp only [Source.settled, hv] at hvars ⊢
          exact hliteral _ hvars
  | range min max =>
      rw [hq] at hvars
      exact
        ⟨hvars ⟨Resolved.minName name, min⟩ (by simp [Source.settled, Resolved.configVariables]),
        hvars ⟨Resolved.maxName name, max⟩ (by simp [Source.settled, Resolved.configVariables])⟩
  | named other =>
      rw [hq, Source.settled] at hvars
      rw [Source.settled]
      split
      · rename_i hdeclared
        exact ⟨hs ((s.isDeclared_iff other).mp hdeclared),
          dotFree_of_isIdentifier (isIdentifier_of_named hq)⟩
      · rename_i hnot
        rw [if_neg hnot] at hvars
        exact hliteral _ hvars
  | number n =>
      rw [hq] at hvars
      exact hliteral n hvars
  | unresolved =>
      rw [hq] at hvars
      exact hliteral _ hvars

namespace HeldChange

/-- A form of a slot begins as the slot does, and is one field of a path. -/
theorem form_toList {c : HeldChange} (hslot : ∃ n, c.slot = Storage.candidate "hand_change" n)
    {form : String} (hform : form ∈ c.forms) :
    "hand_change".toList <+: form.toList ∧ DotFree form := by
  obtain ⟨suffix, hsuffix, rfl⟩ := Storage.mem_forms.mp hform
  obtain ⟨n, hslot⟩ := hslot
  obtain ⟨digits, hdigits, hlist⟩ := Storage.candidate_toList "hand_change" n
  rw [DotFree, hslot, String.toList_append, hlist, List.append_assoc]
  refine ⟨List.prefix_append _ _, fun hdot => ?_⟩
  have hsuffixes : ∀ suffix ∈ "" :: HandChange.passiveSuffixes, '.' ∉ suffix.toList := by decide
  rw [List.mem_append, List.mem_append] at hdot
  rcases hdot with hbase | hdigit | hend
  · exact absurd hbase (by simp)
  · exact absurd (hdigits '.' hdigit) (by simp)
  · exact hsuffixes suffix hsuffix hend

/-- The storage holds what the blocks of the effect need: the slot is its own, the record of
the applied change is declared and the one of the number seen before is not, and the
quantity finds what it reads. -/
structure Fits (c : HeldChange) (s : Storage) : Prop where
  slot : ∃ n, c.slot = Storage.candidate "hand_change" n
  taken : ∀ form ∈ c.forms, form ∈ s.taken
  applied : c.operation ≠ .set → ⟨c.applied, Number.zero false⟩ ∈ s.declared
  original : c.original ∉ s.names
  reads : c.resolved.ReadsFrom s

theorem Fits.grows {c : HeldChange} {s t : Storage} (h : c.Fits s) (hst : s.Grows t) :
    c.Fits t := by
  have hnames : s.names ⊆ t.names := List.map_subset _ hst.declared
  refine ⟨h.slot, fun form hform => hst.taken (h.taken form hform),
    fun hop => hst.declared (h.applied hop), fun hdeclared => ?_, ?_⟩
  · exact h.original (hst.untouched _ (h.taken _ c.original_mem_forms) hdeclared)
  · have hcan : ∀ {name : String}, s.CanRead name → t.CanRead name :=
      fun hname => ⟨hnames hname.1, hname.2⟩
    have hreads := h.reads
    cases hr : c.resolved with
    | literal value slot =>
        rw [hr] at hreads
        obtain ⟨name, hslot, hname⟩ := hreads
        exact ⟨name, hslot, hcan hname⟩
    | gameState e =>
        rw [hr] at hreads
        exact hreads
    | range name min max seed =>
        rw [hr] at hreads
        exact ⟨hcan hreads.1, hcan hreads.2⟩
    | named name =>
        rw [hr] at hreads
        exact hcan hreads

end HeldChange

/-- The storage after the compilation of an effect whose slot is claimed from `s`. -/
def HeldChange.storageAfter (c : HeldChange) (s : Storage) : Storage :=
  (s.claim "hand_change" HandChange.passiveSuffixes).2.addingAll c.vars

/-- The change is what the compilation makes of an edit: it has the operation of the edit, and
its quantity was settled in some storage on the way. -/
def HeldChange.ComesFrom (setting : Setting) (start : Storage) (edit : Effect × HandChange)
    (c : HeldChange) : Prop :=
  c.operation = edit.2.operation ∧
    ∃ s : Storage, start.Grows s ∧ c.resolved = (Source.ofQuantity edit.2.value).settled
      setting.naming (.declared c.slot edit.1.id.text) s c.slot

/-- The blocks of a held change are made, and its records are declared. -/
theorem run_passiveCode (setting : Setting) (effect : Effect) (params : HandChange)
    {s : Storage} (hs : s.Reachable) :
    ∃ c : HeldChange, c.operation = params.operation ∧
      c.slot = s.claimedName "hand_change" HandChange.passiveSuffixes ∧
      c.resolved = (Source.ofQuantity params.value).settled setting.naming
        (.declared c.slot effect.id.text) (s.claim "hand_change" HandChange.passiveSuffixes).2
        c.slot ∧
      (HandChange.passiveCode setting effect params).run s =
        (.ok { blocks := c.blocks }, c.storageAfter s) := by
  obtain ⟨r, hbind, hr⟩ := run_bindQuantity setting "hand_change" HandChange.passiveSuffixes
    (by decide) params.value effect.id hs
  let c : HeldChange :=
    ⟨params.operation, s.claimedName "hand_change" HandChange.passiveSuffixes, r⟩
  refine ⟨c, rfl, rfl, hr, ?_⟩
  obtain ⟨hforms, -⟩ := configVariables_settled setting.naming
    (s.claim "hand_change" HandChange.passiveSuffixes).2 (.declared c.slot effect.id.text) c.slot
    (fun _ => rfl) (Source.ofQuantity params.value)
  have hnew : c.applied ∉ ((s.claim "hand_change" HandChange.passiveSuffixes).2.addingAll
      r.configVariables).names := by
    rw [Storage.names_addingAll, List.mem_append, not_or]
    refine ⟨hs.notMem_names_of_claim c.applied_mem_forms, fun hmem => ?_⟩
    obtain ⟨v, hv, hname⟩ := List.mem_map.mp hmem
    exact c.records_notMem_forms.1 (hname ▸ hforms v (hr ▸ hv))
  have hdeclare := Resolver.run_declare (v := ⟨c.applied, Number.zero false⟩) hnew
  rw [HandChange.passiveCode, Resolver.run_bind_of_ok _ hbind, HeldChange.storageAfter,
    HeldChange.vars, Storage.addingAll_append]
  cases hop : params.operation with
  | add =>
      have hc : c.operation = .add := hop
      rw [HeldChange.blocks, hc, BoundQuantity.slot_ofResolved]
      exact Resolver.run_bind_of_ok _ hdeclare
  | subtract =>
      have hc : c.operation = .subtract := hop
      rw [HeldChange.blocks, hc, BoundQuantity.slot_ofResolved]
      exact Resolver.run_bind_of_ok _ hdeclare
  | set =>
      have hc : c.operation = .set := hop
      rw [HeldChange.blocks, hc]
      rfl

/-- **The compilation of one effect** on the number of hands of a held joker: it never fails,
and takes a slot of its own. -/
theorem run_compile_held (setting : Setting) (effect : Effect) {params : HandChange}
    (hkind : effect.kind = .editHand params) (hexact : (Source.ofQuantity params.value).IsExact)
    {s : Storage} (hs : s.Reachable) :
    ∃ (code : EffectCode) (c : HeldChange) (t : Storage),
      (effect.compile setting .passive).run s = (.ok code, t) ∧
      code.body.blocks = c.blocks ∧ c.ComesFrom setting s (effect, params) ∧
      t.Reachable ∧ s.Grows t ∧ c.Fits t ∧ ∀ form ∈ c.forms, form ∉ s.taken := by
  obtain ⟨c, hop, hslot, hr, hrun⟩ := run_passiveCode setting effect params hs
  have hcode : (effect.kind.code setting .passive effect).run s =
      (.ok { blocks := c.blocks }, c.storageAfter s) := by
    rw [hkind]
    exact hrun
  have hcompile : (effect.compile setting .passive).run s =
      (.ok { id := effect.id, kind := effect.kind.tag, body := { blocks := c.blocks },
             vars := (c.storageAfter s).declaredSince s.declared.length }, c.storageAfter s) := by
    have hget : (get : Resolver Storage).run s = (.ok s, s) := rfl
    rw [Effect.compile, Resolver.run_bind_of_ok _ hget]
    exact Resolver.run_bind_of_ok _ hcode
  obtain ⟨hforms, hnodup⟩ := configVariables_settled setting.naming
    (s.claim "hand_change" HandChange.passiveSuffixes).2 (.declared c.slot effect.id.text) c.slot
    (fun _ => rfl) (Source.ofQuantity params.value)
  rw [← hr] at hforms hnodup
  obtain ⟨hvars, hvarsNodup⟩ := c.vars_spec hforms hnodup
  have hclaimed : c.forms = Storage.forms HandChange.passiveSuffixes
      (s.claimedName "hand_change" HandChange.passiveSuffixes) := by
    rw [HeldChange.forms, hslot]
  have hnew : ∀ v ∈ c.vars, v.name ∉ (s.claim "hand_change" HandChange.passiveSuffixes).2.names :=
    fun v hv => hs.notMem_names_of_claim (hclaimed ▸ (hvars v hv).1)
  have hgrows : s.Grows (c.storageAfter s) :=
    Storage.Grows.claim_addingAll s _ _ fun v hv => hclaimed ▸ (hvars v hv).1
  have hnames : (c.storageAfter s).names = s.names ++ c.vars.map (·.name) :=
    Storage.names_addingAll _ _
  have hcandidate : ∃ n, c.slot = Storage.candidate "hand_change" n := by
    rw [hslot]
    exact s.claimedName_eq_candidate _ _
  have hclaim : s.Grows ((s.claim "hand_change" HandChange.passiveSuffixes).2.addingAll []) :=
    Storage.Grows.claim_addingAll s _ _ nofun
  refine ⟨_, c, _, hcompile, rfl, ⟨hop, _, hclaim, hr⟩,
    (hs.claim _ _).addingAll hnew hvarsNodup, hgrows, ?_, ?_⟩
  · refine ⟨hcandidate, fun form hform => ?_, fun hset => ?_, fun hdeclared => ?_, ?_⟩
    · exact Storage.taken_subset_addingAll _ _ (Storage.mem_claim.mpr (Or.inl (hclaimed ▸ hform)))
    · rw [HeldChange.storageAfter, Storage.declared_addingAll, HeldChange.vars]
      cases hc : c.operation with
      | set => exact absurd hc hset
      | add => simp
      | subtract => simp
    · rw [hnames, List.mem_append] at hdeclared
      rcases hdeclared with hold | hvar
      · exact hs.notMem_names_of_claim (hclaimed ▸ c.original_mem_forms) hold
      · obtain ⟨v, hv, hname⟩ := List.mem_map.mp hvar
        exact (hvars v hv).2 hname
    · rw [hr]
      refine readsFrom_settled hexact (List.map_subset _ hgrows.declared) fun v hv => ?_
      rw [← hr] at hv
      refine ⟨?_, (HeldChange.form_toList hcandidate ?_).2⟩
      · rw [hnames, HeldChange.vars, List.map_append]
        exact List.mem_append_right _ (List.mem_append_left _ (List.mem_map_of_mem hv))
      · exact mem_forms_of_subset (by decide) (hforms v hv)
  · intro form hform
    exact (s.isFree_iff _ _).mp (s.isFree_claimedName _ _) form (hclaimed ▸ hform)

/-- The effect, as one that edits the number of hands. -/
def Effect.editing (effect : Effect) (params : HandChange) : Effect :=
  { effect with kind := .editHand params }

/-- No form of one slot is a form of the other. -/
def HeldChange.Apart (c d : HeldChange) : Prop := ∀ form ∈ c.forms, form ∉ d.forms

/-- **The compilation of a list of effects** on the number of hands of a held joker: it never
fails, and no two effects share a form of their slots. -/
theorem run_mapM_compile_held (setting : Setting) (edits : List (Effect × HandChange))
    (hexact : ∀ p ∈ edits, (Source.ofQuantity p.2.value).IsExact) {s : Storage}
    (hs : s.Reachable) :
    ∃ (codes : List EffectCode) (changes : List HeldChange) (t : Storage),
      ((edits.map fun p => p.1.editing p.2).mapM (Effect.compile setting .passive)).run s =
        (.ok codes, t) ∧
      codes.map (·.body.blocks) = changes.map (·.blocks) ∧
      List.Forall₂ (HeldChange.ComesFrom setting s) edits changes ∧
      s.Grows t ∧ (∀ c ∈ changes, c.Fits t ∧ ∀ form ∈ c.forms, form ∉ s.taken) ∧
      changes.Pairwise HeldChange.Apart := by
  induction edits generalizing s with
  | nil => exact ⟨[], [], s, rfl, rfl, .nil, .refl s, nofun, .nil⟩
  | cons edit edits ih =>
      obtain ⟨code, c, t, hrun, hblocks, hop, ht, hst, hfits, hnew⟩ :=
        run_compile_held setting (edit.1.editing edit.2) rfl
          (hexact edit List.mem_cons_self) hs
      obtain ⟨codes, changes, u, hruns, hblockss, hops, htu, hfitss, hapart⟩ :=
        ih (fun p hp => hexact p (List.mem_cons_of_mem edit hp)) ht
      refine ⟨code :: codes, c :: changes, u, ?_, ?_, ?_, hst.trans htu, ?_, ?_⟩
      · rw [List.map_cons, List.mapM_cons, Resolver.run_bind_of_ok _ hrun,
          Resolver.run_bind_of_ok _ hruns]
        rfl
      · rw [List.map_cons, List.map_cons, hblocks, hblockss]
      · refine .cons hop (hops.imp ?_)
        rintro p d ⟨hpd, u, hu, hd⟩
        exact ⟨hpd, u, hst.trans hu, hd⟩
      · intro d hd
        rcases List.mem_cons.mp hd with rfl | hd
        · exact ⟨hfits.grows htu, hnew⟩
        · obtain ⟨hfit, hfree⟩ := hfitss d hd
          exact ⟨hfit, fun form hform hmem => hfree form hform (hst.taken hmem)⟩
      · refine List.pairwise_cons.mpr ⟨fun d hd form hform hmem => ?_, hapart⟩
        exact (hfitss d hd).2 form hmem (hfits.taken form hform)

end JokerScript
