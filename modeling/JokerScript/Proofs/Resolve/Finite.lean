import JokerScript.Proofs.Lua.Numbers
import JokerScript.Proofs.Resolve.Meaning

/-!
# Which Numbers Leave the Resolver

A quantity becomes an expression with numerals in it, and variables with values to start from.
A plain number leaves only if it is finite; all others count as zero. The pieces of a scaled
reference and of a range have no such guard: a piece that is the numeral of an infinite number,
or of NaN, leaves as it is.

## Main definitions

* `Meaning.IsFinite` — all numbers of a meaning are finite.
* `Resolved.IsFinite` — all numbers that a resolved quantity brings along are finite.

## Main results

* `isFinite_settled` — a settled quantity is finite exactly if its meaning is.
* `run_resolve_isFinite_iff` — the same for each run of `resolve` that succeeds.
-/

namespace JokerScript

open Lua

/-! ### Definitions -/

/-- All numbers of a meaning are finite. -/
def Meaning.IsFinite : Meaning → Prop
  | constant n => n.isFinite = true
  | scaled _ multiplier offset => multiplier.isFinite = true ∧ offset.isFinite = true
  | draw min max => min.isFinite = true ∧ max.isFinite = true
  | stored _ => True

/-- All numbers that a resolved quantity brings along are finite: those in its variables, and
those in its expression. -/
structure Resolved.IsFinite (r : Resolved) : Prop where
  config : ∀ v ∈ r.configVariables, v.value.isFinite = true
  numerals : ∀ n ∈ r.expr.numbers, n.isFinite = true

/-! ### Expressions -/

namespace GameVar

/-- A factor that is left out is one. -/
theorem isFinite_scaled {base : Expr} (hbase : base.numbers = []) (m : Number) :
    (∀ n ∈ (scaled base m).numbers, n.isFinite = true) ↔ m.isFinite = true := by
  rw [scaled]
  split
  · rename_i hm
    have hone : Number.one.isFinite = true := rfl
    simp [hbase, hm, hone]
  · simp [hbase]

/-- An offset that is left out is zero. -/
theorem isFinite_shifted (base : Expr) (o : Number) :
    (∀ n ∈ (shifted base o).numbers, n.isFinite = true) ↔
      (∀ n ∈ base.numbers, n.isFinite = true) ∧ o.isFinite = true := by
  rw [shifted]
  split
  · rename_i hzero
    have ho : o.isFinite = true := by
      rw [Number.isZero, Bool.and_eq_true, beq_iff_eq] at hzero
      simp [Number.isFinite, hzero.1]
    simp [ho]
  · have hopposite : o.opposite.isFinite = o.isFinite := rfl
    split
    · simp [or_imp, forall_and, hopposite]
    · simp [or_imp, forall_and]

theorem isFinite_expr {v : GameVar} {e : Expr} (he : v.expr? = some e) :
    (∀ n ∈ e.numbers, n.isFinite = true) ↔
      v.multiplier.isFinite = true ∧ v.offset.isFinite = true := by
  obtain ⟨reading, -, rfl⟩ := exists_reading he
  have hnone : reading.expr.numbers = [] := by cases reading <;> rfl
  rw [isFinite_shifted, isFinite_scaled hnone]

end GameVar

theorem isFinite_literal (request : ResolveRequest) (n : Number) :
    (request.literal n).IsFinite ↔ n.isFinite = true := by
  obtain ⟨name, owner, policy⟩ := request
  cases policy with
  | declared =>
      refine ⟨fun h => h.config _ List.mem_cons_self, fun h => ⟨?_, List.forall_mem_nil _⟩⟩
      simpa [ResolveRequest.literal, Resolved.configVariables] using h
  | inline =>
      refine ⟨fun h => h.numerals _ List.mem_cons_self, fun h => ⟨List.forall_mem_nil _, ?_⟩⟩
      simpa [ResolveRequest.literal, Resolved.expr] using h

/-! ### Settled quantities -/

section Settled

variable (naming : Naming) (request : ResolveRequest) (s : Storage) (rangeName : String)

/-- **A settled quantity is finite** exactly if its meaning is. -/
theorem isFinite_settled {source : Source} {m : Meaning} (h : source.meaning? s = some m) :
    (source.settled naming request s rangeName).IsFinite ↔ m.IsFinite := by
  cases source with
  | gameVar v =>
      obtain ⟨hknown, rfl⟩ := Source.meaning?_gameVar.mp h
      obtain ⟨e, he⟩ := GameVar.exists_expr hknown
      have hnumbers := GameVar.isFinite_expr he
      simp only [Source.settled, he]
      exact ⟨fun hfinite => hnumbers.mp hfinite.numerals,
        fun hfinite => ⟨List.forall_mem_nil _, hnumbers.mpr hfinite⟩⟩
  | range min max =>
      obtain rfl := Option.some.inj h
      refine ⟨fun hfinite => ?_, fun hbounds => ⟨?_, List.forall_mem_nil _⟩⟩
      · exact ⟨hfinite.config _ List.mem_cons_self,
          hfinite.config _ (List.mem_cons_of_mem _ List.mem_cons_self)⟩
      · obtain ⟨hmin, hmax⟩ := hbounds
        simpa [Source.settled, Resolved.configVariables] using ⟨hmin, hmax⟩
  | named name =>
      obtain ⟨hname, rfl⟩ := Source.meaning?_named.mp h
      rw [Source.settled, if_pos ((s.isDeclared_iff name).mpr hname)]
      exact iff_of_true ⟨List.forall_mem_nil _, List.forall_mem_nil _⟩ trivial
  | number n =>
      obtain rfl := Option.some.inj h
      exact isFinite_literal request n
  | unresolved => cases h

end Settled

/-! ### Runs -/

section Runs

variable {naming : Naming} {request : ResolveRequest} {q : Quantity} {s t : Storage}
  {r : Resolved}

/-- A number that is not finite stands for nothing, and so does a text that spells one, unless
it is the name of a variable. -/
theorem Quantity.StandsFor.exists_stored {n : Number} (hq : q.asNumber? = some n)
    (hn : n.isFinite = false) {m : Meaning} (h : q.StandsFor s m) : ∃ name, m = .stored name := by
  cases h with
  | number hfinite =>
      obtain rfl := Option.some.inj hq
      rw [hn] at hfinite
      cases hfinite
  | numeral h hfinite =>
      obtain rfl := Option.some.inj (h.symm.trans hq)
      rw [hn] at hfinite
      cases hfinite
  | game h _ _ _ _ =>
      have hlead : gameVarLead.toList = 'G' :: "AMEVAR:".toList := rfl
      rw [asNumber?, h, hlead, List.cons_append, readChars?_eq_none (by decide) (by decide)] at hq
      cases hq
  | range h _ _ _ =>
      have hlead : rangeLead.toList = 'R' :: "ANGE:".toList := rfl
      rw [asNumber?, h, hlead, List.cons_append, readChars?_eq_none (by decide) (by decide)] at hq
      cases hq
  | stored _ _ _ => exact ⟨_, rfl⟩

/-- **The numbers that leave the resolver** are all finite, unless the quantity is a scaled
reference or a range with a piece that is not. A number that is not finite is treated as what
stands for nothing, also when a text spells it, unless the text is the name of a variable. -/
theorem run_resolve_isFinite_iff (hrun : (resolve naming request q).run s = (.ok r, t)) :
    t.declared = s.declared ++ r.configVariables ∧
      (r.IsFinite ↔ ∀ m, q.StandsFor s m → m.IsFinite) ∧
      ((∀ m, ¬q.StandsFor s m) → r = request.literal (Number.zero false)) ∧
      ∀ n, q.asNumber? = some n → n.isFinite = false →
        r = request.literal (Number.zero false) ∨
          ∃ name, q.StandsFor s (.stored name) ∧ r = .named name := by
  obtain ⟨rangeName, rfl, hdeclared⟩ := exists_settled_of_run hrun
  have hzero := settled_of_forall_not_standsFor naming request s rangeName (q := q)
  refine ⟨hdeclared, ?_, hzero, fun n hq hn => ?_⟩
  · by_cases hnothing : ∀ m, ¬q.StandsFor s m
    · rw [hzero hnothing, isFinite_literal]
      exact iff_of_true rfl fun m hm => absurd hm (hnothing m)
    · push Not at hnothing
      obtain ⟨m, hm⟩ := hnothing
      rw [isFinite_settled naming request s rangeName hm.meaning?]
      exact ⟨fun h m' hm' => hm.unique hm' ▸ h, fun h => h m hm⟩
  · by_cases hnothing : ∀ m, ¬q.StandsFor s m
    · exact Or.inl (hzero hnothing)
    · push Not at hnothing
      obtain ⟨m, hm⟩ := hnothing
      obtain ⟨name, rfl⟩ := hm.exists_stored hq hn
      exact Or.inr ⟨name, hm, settled_of_stored naming request s rangeName hm.meaning?⟩

/-- Twice the money less one, in the storage of a joker without variables. -/
theorem run_resolve_isFinite_iff_money :
    ∃ r t, (resolve {} (.inline "count" "rule-1") (.text "GAMEVAR:money|2|-1")).run {} =
        (.ok r, t) ∧
      t.declared = r.configVariables ∧ r.IsFinite := by
  have hsource : Source.ofQuantity (.text "GAMEVAR:money|2|-1") =
      .gameVar ⟨"money", Number.two, Number.one.opposite⟩ := by decide +kernel
  have hrun := run_resolve_inline {} .empty "count" "rule-1" (.text "GAMEVAR:money|2|-1")
  obtain ⟨hdeclared, hfinite, -, -⟩ := run_resolve_isFinite_iff hrun
  refine ⟨_, _, hrun, hdeclared, hfinite.mpr fun m hm => ?_⟩
  have hmeaning := hm.meaning?
  rw [hsource, Source.meaning?, if_pos (by decide)] at hmeaning
  obtain rfl := Option.some.inj hmeaning
  exact ⟨rfl, rfl⟩

/-- **An infinite bound leaves the resolver.** -/
theorem exists_run_resolve_infinite :
    ∃ r t, (resolve {} (.inline "count" "rule-1") (.text "RANGE:inf|3")).run {} = (.ok r, t) ∧
      ⟨"count_min", Number.infinity false⟩ ∈ t.declared ∧
      (Number.infinity false).isFinite = false := by
  have hrange : Source.ofQuantity (.text "RANGE:inf|3") =
      .range (Number.infinity false) Number.three := by decide +kernel
  have hrun := run_resolve_inline {} .empty "count" "rule-1" (.text "RANGE:inf|3")
  rw [hrange] at hrun
  refine ⟨_, _, hrun, ?_, rfl⟩
  have hname : Resolved.minName (Source.inlineName "count" {}) = "count_min" := by decide +kernel
  rw [Source.storageAfter, Storage.declared_addingAll, hname]
  exact List.mem_append_right _ List.mem_cons_self

end Runs

end JokerScript
