import JokerScript.Proofs.Storage.Names

/-!
# Settled Quantities

In a reachable storage resolving never fails, and what it does is told by two functions
without effects: `Source.settled` is the resolved quantity, and the storage gains just the
variables that the quantity needs, under a name that no other variable has.

## Main definitions

* `Source.settled` — the resolved quantity of a source.
* `Source.storageAfter` — the storage after a source is resolved inside an expression.
* `stages` — the items of a list, each with the state that its turn begins in.

## Main results

* `run_resolve_declared`, `run_resolve_inline` — the runs of `resolve`.
* `Resolver.run_bind_of_ok`, `Resolver.run_mapM` — runs in order.
-/

namespace JokerScript

/-! ### Stages -/

/-- The items of a list, each with the state that its turn begins in, when `after` tells
the state after a turn. -/
def stages {σ α : Type} (after : σ → α → σ) : σ → List α → List (σ × α)
  | _, [] => []
  | s, a :: rest => (s, a) :: stages after (after s a) rest

section Stages

variable {σ α : Type} {after : σ → α → σ}

/-- A preorder that holds over each turn holds over all of them. -/
theorem foldl_between {R : σ → σ → Prop} (hrefl : ∀ s, R s s)
    (htrans : ∀ {s t u}, R s t → R t u → R s u) (hafter : ∀ s a, R s (after s a))
    (as : List α) (s : σ) : R s (as.foldl after s) := by
  induction as generalizing s with
  | nil => exact hrefl s
  | cons a as ih => exact htrans (hafter s a) (ih (after s a))

/-- A preorder that holds over each turn holds from the beginning to each stage, and from
the end of its turn to the end. -/
theorem stages_between {R : σ → σ → Prop} (hrefl : ∀ s, R s s)
    (htrans : ∀ {s t u}, R s t → R t u → R s u) (hafter : ∀ s a, R s (after s a))
    {as : List α} {s : σ} {p : σ × α} (hp : p ∈ stages after s as) :
    R s p.1 ∧ R (after p.1 p.2) (as.foldl after s) := by
  induction as generalizing s with
  | nil => exact absurd hp List.not_mem_nil
  | cons a as ih =>
      rw [stages, List.mem_cons] at hp
      rcases hp with rfl | hp
      · exact ⟨hrefl s, foldl_between hrefl htrans hafter as (after s a)⟩
      · obtain ⟨hbegin, hend⟩ := ih hp
        exact ⟨htrans (hafter s a) hbegin, hend⟩

end Stages

/-! ### Runs -/

namespace Resolver

section Runs

variable {ε σ α β : Type} {s t : σ}

theorem run_bind (x : ExceptT ε (StateM σ) α) (f : α → ExceptT ε (StateM σ) β) (s : σ) :
    (x >>= f).run s = match x.run s with
      | (.ok a, t) => (f a).run t
      | (.error e, t) => (.error e, t) := by
  change (ExceptT.bind x f).run s = _
  simp only [ExceptT.bind, ExceptT.run, ExceptT.mk, ExceptT.bindCont, bind, StateT.bind]
  rcases x s with ⟨_ | _, _⟩ <;> rfl

/-- After a success, the rest runs. -/
theorem run_bind_of_ok {x : ExceptT ε (StateM σ) α} {a : α} (f : α → ExceptT ε (StateM σ) β)
    (h : x.run s = (.ok a, t)) : (x >>= f).run s = (f a).run t := by
  rw [run_bind, h]

end Runs

theorem run_claim (base : String) (suffixes : List String) (s : Storage) :
    (claim base suffixes).run s =
      (.ok (s.claimedName base suffixes), (s.claim base suffixes).2) := rfl

theorem run_declare {s : Storage} {v : StoredVariable} (h : v.name ∉ s.names) :
    (declare v).run s = (.ok (), s.adding v) := by
  have hget : (get : Resolver Storage).run s = (.ok s, s) := rfl
  rw [declare, run_bind_of_ok _ hget, Storage.declare_of_notMem h]
  rfl

theorem run_declareAll {s : Storage} {vs : List StoredVariable}
    (hnew : ∀ v ∈ vs, v.name ∉ s.names) (hvs : (vs.map (·.name)).Nodup) :
    (declareAll vs).run s = (.ok (), s.addingAll vs) := by
  induction vs generalizing s with
  | nil => rfl
  | cons v vs ih =>
      rw [List.map_cons, List.nodup_cons] at hvs
      rw [declareAll, run_bind_of_ok _ (run_declare (hnew v List.mem_cons_self)),
        Storage.addingAll_cons]
      refine ih (fun w hw => ?_) hvs.2
      rw [Storage.names_adding, List.mem_append, List.mem_singleton, not_or]
      refine ⟨hnew w (List.mem_cons_of_mem v hw), fun heq => hvs.1 ?_⟩
      exact heq ▸ List.mem_map_of_mem hw

end Resolver

/-! ### Settled sources -/

/-- The expression of a scaled reference is built on the reading of its token. -/
theorem GameVar.exists_reading {v : GameVar} {e : Lua.Expr} (he : v.expr? = some e) :
    ∃ reading, (v.token, reading) ∈ GameState.readings ∧
      e = shifted (scaled reading.expr v.multiplier) v.offset := by
  obtain ⟨base, hbase, rfl⟩ := Option.map_eq_some_iff.mp he
  obtain ⟨reading, hlookup, rfl⟩ := Option.map_eq_some_iff.mp hbase
  obtain ⟨before, after, hsplit, -⟩ := List.lookup_eq_some_iff.mp hlookup
  exact ⟨reading, by simp [hsplit], rfl⟩

namespace Source

/-- The **settled** quantity of a source, when `s` is the storage and a range goes under
`rangeName`. -/
def settled (naming : Naming) (request : ResolveRequest) (s : Storage) (rangeName : String) :
    Source → Resolved
  | gameVar v =>
    match v.expr? with
    | some e => .gameState e
    | none => request.literal (Number.zero false)
  | range min max => .range rangeName min max (naming.seed rangeName request.owner)
  | named name =>
    if s.isDeclared name then .named name else request.literal (Number.zero false)
  | number n => request.literal n
  | unresolved => request.literal (Number.zero false)

/-- The name that a range inside an expression goes under. -/
def inlineName (base : String) (s : Storage) : String := s.claimedName base valueSuffixes

/-- The storage after a source is resolved inside an expression: only a range needs
variables. -/
def storageAfter (base : String) (s : Storage) : Source → Storage
  | range min max =>
    (s.claim base valueSuffixes).2.addingAll
      [⟨Resolved.minName (inlineName base s), min⟩, ⟨Resolved.maxName (inlineName base s), max⟩]
  | gameVar _ | named _ | number _ | unresolved => s

end Source

theorem minName_ne_maxName (name : String) : Resolved.minName name ≠ Resolved.maxName name := by
  intro h
  have hsuffix := (String.append_right_inj name).mp h
  exact absurd hsuffix (by decide)

section Settled

variable (naming : Naming) (s : Storage)

theorem configVariables_literal (request : ResolveRequest) (n : Number) :
    (request.literal n).configVariables =
      if request.policy = .declared then [⟨request.name, n⟩] else [] := by
  cases h : request.policy <;> simp [ResolveRequest.literal, Resolved.configVariables, h]

/-- The variables that a settled quantity needs are distinct forms of one name. -/
theorem configVariables_settled (request : ResolveRequest) (rangeName : String)
    (hname : request.policy = .declared → request.name = rangeName) (source : Source) :
    (∀ v ∈ (source.settled naming request s rangeName).configVariables,
        v.name ∈ Storage.forms valueSuffixes rangeName) ∧
      ((source.settled naming request s rangeName).configVariables.map (·.name)).Nodup := by
  have hliteral : ∀ n : Number,
      (∀ v ∈ (request.literal n).configVariables,
        v.name ∈ Storage.forms valueSuffixes rangeName) ∧
      ((request.literal n).configVariables.map (·.name)).Nodup := by
    intro n
    rw [configVariables_literal]
    split
    · rename_i hpolicy
      refine ⟨fun v hv => ?_, List.nodup_singleton _⟩
      obtain rfl := List.mem_singleton.mp hv
      rw [hname hpolicy]
      exact Storage.self_mem_forms _ _
    · exact ⟨fun v hv => absurd hv List.not_mem_nil, List.nodup_nil⟩
  have hnone : ∀ r : Resolved, r.configVariables = [] →
      (∀ v ∈ r.configVariables, v.name ∈ Storage.forms valueSuffixes rangeName) ∧
      (r.configVariables.map (·.name)).Nodup := by
    intro r hr
    rw [hr]
    exact ⟨fun v hv => absurd hv List.not_mem_nil, List.nodup_nil⟩
  cases source with
  | gameVar v =>
      rw [Source.settled]
      split
      · exact hnone _ rfl
      · exact hliteral _
  | range min max =>
      have hmin : Resolved.minName rangeName ∈ Storage.forms valueSuffixes rangeName :=
        Storage.mem_forms.mpr ⟨"_min", by decide, rfl⟩
      have hmax : Resolved.maxName rangeName ∈ Storage.forms valueSuffixes rangeName :=
        Storage.mem_forms.mpr ⟨"_max", by decide, rfl⟩
      simp [Source.settled, Resolved.configVariables, hmin, hmax, minName_ne_maxName]
  | named name =>
      rw [Source.settled]
      split
      · exact hnone _ rfl
      · exact hliteral _
  | number n => exact hliteral n
  | unresolved => exact hliteral _

/-- Only a range may claim a name while it is settled. -/
theorem run_settle (request : ResolveRequest) (rangeName : String) {source : Source}
    (hrange : ∀ min max, source ≠ .range min max) :
    (settle naming request source).run s =
      (.ok (source.settled naming request s rangeName), s) := by
  have hget : (get : Resolver Storage).run s = (.ok s, s) := rfl
  cases source with
  | gameVar v =>
      cases hv : v.expr? <;> simp only [settle, Source.settled, hv] <;> rfl
  | named other =>
      rw [settle, Source.settled, Resolver.run_bind_of_ok _ hget]
      split <;> rfl
  | range min max => exact absurd rfl (hrange min max)
  | number n => rfl
  | unresolved => rfl

/-- Under a name of its own, a quantity is resolved and its variables are declared. -/
theorem run_resolve_declared (name owner : String) (q : Quantity)
    (hnew : ∀ form ∈ Storage.forms valueSuffixes name, form ∉ s.names) :
    (resolve naming (.declared name owner) q).run s =
      (.ok ((Source.ofQuantity q).settled naming (.declared name owner) s name),
        s.addingAll
          ((Source.ofQuantity q).settled naming (.declared name owner) s
            name).configVariables) := by
  have hsettle : (settle naming (.declared name owner) (Source.ofQuantity q)).run s =
      (.ok ((Source.ofQuantity q).settled naming (.declared name owner) s name), s) := by
    cases hq : Source.ofQuantity q with
    | range min max => rfl
    | _ => exact run_settle naming s _ _ (by simp)
  obtain ⟨hforms, hnodup⟩ := configVariables_settled naming s (.declared name owner) name
    (fun _ => rfl) (Source.ofQuantity q)
  have hdeclare := Resolver.run_declareAll (fun v hv => hnew v.name (hforms v hv)) hnodup
  rw [resolve, Resolver.run_bind_of_ok _ hsettle, Resolver.run_bind_of_ok _ hdeclare]
  rfl

theorem configVariables_settled_inline (base owner rangeName : String) {source : Source}
    (hrange : ∀ min max, source ≠ .range min max) :
    (source.settled naming (.inline base owner) s rangeName).configVariables = [] := by
  cases source with
  | gameVar v => cases hv : v.expr? <;> simp only [Source.settled, hv] <;> rfl
  | named other => rw [Source.settled]; split <;> rfl
  | range min max => exact absurd rfl (hrange min max)
  | number n => rfl
  | unresolved => rfl

end Settled

/-- Inside an expression, a quantity is resolved and only a range declares its bounds, under
a claimed name. -/
theorem run_resolve_inline (naming : Naming) {s : Storage} (hs : s.Reachable)
    (base owner : String) (q : Quantity) :
    (resolve naming (.inline base owner) q).run s =
      (.ok ((Source.ofQuantity q).settled naming (.inline base owner) s
          (Source.inlineName base s)),
        (Source.ofQuantity q).storageAfter base s) := by
  by_cases hq : ∃ min max, Source.ofQuantity q = .range min max
  · obtain ⟨min, max, hq⟩ := hq
    obtain ⟨hforms, hnodup⟩ := configVariables_settled naming s (.inline base owner)
      (Source.inlineName base s) nofun (.range min max)
    have hnew : ∀ v ∈ (Resolved.range (Source.inlineName base s) min max
        (naming.seed (Source.inlineName base s) owner)).configVariables,
        v.name ∉ (s.claim base valueSuffixes).2.names :=
      fun v hv => hs.notMem_names_of_claim (hforms v hv)
    have hsettle : (settle naming (.inline base owner) (.range min max)).run s =
        (.ok (.range (Source.inlineName base s) min max
          (naming.seed (Source.inlineName base s) owner)), (s.claim base valueSuffixes).2) := rfl
    rw [resolve, hq, Resolver.run_bind_of_ok _ hsettle,
      Resolver.run_bind_of_ok _ (Resolver.run_declareAll hnew hnodup)]
    rfl
  · push Not at hq
    have hnone := configVariables_settled_inline naming s base owner (Source.inlineName base s) hq
    have hafter : (Source.ofQuantity q).storageAfter base s = s := by
      cases hsource : Source.ofQuantity q with
      | range min max => exact absurd hsource (hq min max)
      | _ => rfl
    rw [resolve, Resolver.run_bind_of_ok _ (run_settle naming s _ _ hq), hnone, hafter]
    rfl

/-! ### Runs that succeed -/

/-- What a run that succeeds has declared. -/
theorem Resolver.eq_of_run_declareAll {s t : Storage} {vs : List StoredVariable}
    (h : (declareAll vs).run s = (.ok (), t)) : t = s.addingAll vs := by
  induction vs generalizing s with
  | nil => exact (Prod.mk.inj h).2.symm
  | cons v vs ih =>
      have hget : (get : Resolver Storage).run s = (.ok s, s) := rfl
      rw [declareAll, run_bind, declare, run_bind_of_ok _ hget] at h
      cases hv : s.declare v with
      | ok u =>
          obtain ⟨-, rfl⟩ := Storage.declare_eq_ok hv
          rw [hv] at h
          exact ih h
      | error e =>
          rw [hv] at h
          cases h

/-- Settling a quantity always succeeds, and declares nothing. -/
theorem exists_run_settle (naming : Naming) (request : ResolveRequest) (s : Storage)
    (source : Source) :
    ∃ rangeName t, (settle naming request source).run s =
      (.ok (source.settled naming request s rangeName), t) ∧ t.declared = s.declared := by
  by_cases hrange : ∃ min max, source = .range min max
  · obtain ⟨min, max, rfl⟩ := hrange
    obtain ⟨name, owner, policy⟩ := request
    cases policy with
    | declared => exact ⟨name, s, rfl, rfl⟩
    | inline => exact ⟨s.claimedName name valueSuffixes, _, rfl, s.declared_claim _ _⟩
  · push Not at hrange
    exact ⟨"", s, run_settle naming s request "" hrange, rfl⟩

/-- A run that succeeds gives a settled quantity, and has declared its variables. -/
theorem exists_settled_of_run {naming : Naming} {request : ResolveRequest} {q : Quantity}
    {s t : Storage} {r : Resolved} (hrun : (resolve naming request q).run s = (.ok r, t)) :
    ∃ rangeName, r = (Source.ofQuantity q).settled naming request s rangeName ∧
      t.declared = s.declared ++ r.configVariables := by
  obtain ⟨rangeName, u, hsettle, hdeclared⟩ :=
    exists_run_settle naming request s (Source.ofQuantity q)
  rw [resolve, Resolver.run_bind_of_ok _ hsettle, Resolver.run_bind] at hrun
  rcases hall : (Resolver.declareAll
    ((Source.ofQuantity q).settled naming request s rangeName).configVariables).run u with
    ⟨_ | _, w⟩ <;> rw [hall] at hrun
  · cases hrun
  · obtain ⟨hr, rfl⟩ := Prod.mk.inj hrun
    obtain rfl := Except.ok.inj hr
    obtain rfl := Resolver.eq_of_run_declareAll hall
    exact ⟨rangeName, rfl, by rw [Storage.declared_addingAll, hdeclared]⟩

/-! ### Storages -/

/-- The storage stays reachable when a source is resolved inside an expression. -/
theorem Storage.Reachable.storageAfter {s : Storage} (hs : s.Reachable) (base : String)
    (source : Source) : (source.storageAfter base s).Reachable := by
  cases source with
  | range min max =>
      obtain ⟨hforms, hnodup⟩ := configVariables_settled {} s (.inline base "")
        (Source.inlineName base s) nofun (.range min max)
      exact (hs.claim base valueSuffixes).addingAll
        (fun v hv => hs.notMem_names_of_claim (hforms v hv)) hnodup
  | _ => exact hs

/-- No variable is lost or changed when a source is resolved inside an expression. -/
theorem declared_subset_storageAfter (base : String) (s : Storage) (source : Source) :
    s.declared ⊆ (source.storageAfter base s).declared := by
  cases source with
  | range min max =>
      rw [Source.storageAfter, Storage.declared_addingAll]
      exact List.subset_append_left _ _
  | _ => exact List.Subset.refl _

end JokerScript
