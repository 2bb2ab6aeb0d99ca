import Mathlib.Combinatorics.Pigeonhole
import Mathlib.Data.Finset.Prod
import Std.Data.String.ToNat
import JokerScript.Resolve.Basic

/-!
# Claimed Names

A claim finds a free name, whatever was taken before: the candidates are distinct, each
taken name blocks at most one of them for each form, and the search looks at one more
candidate than can be blocked.

A storage is **reachable** if claims and declarations made it. Its declared names are
distinct and taken, so a name that was free before a claim can still be declared after it.

## Main definitions

* `Storage.IsFirstFree` — the candidate that a search ends at.
* `Storage.Reachable` — the storages that the compilation of a joker goes through.
* `Storage.Grows` — what later claims and declarations may change.

## Main results

* `Storage.isFree_claimedName` — a claimed name and its forms were free.
* `Storage.Reachable.declared_taken`, `Storage.Reachable.nodup` — declared names.
-/

namespace JokerScript

namespace Storage

/-! ### Candidates -/

theorem candidate_injective (base : String) {m n : ℕ}
    (h : candidate base m = candidate base n) : m = n := by
  have hlong : ∀ k : ℕ, base ++ toString (k + 1) ≠ base := by
    intro k hk
    rw [String.append_eq_left_iff] at hk
    exact Nat.repr_ne_empty hk
  rw [candidate, candidate] at h
  split at h
  · split at h
    · omega
    · exact absurd h.symm (hlong n)
  · split at h
    · exact absurd h (hlong m)
    · have hmn : m + 1 = n + 1 := Nat.repr_injective ((String.append_right_inj base).mp h)
      omega

/-- A candidate is its base, followed by digits. -/
theorem candidate_toList (base : String) (n : ℕ) :
    ∃ digits : List Char, (∀ c ∈ digits, c.isDigit = true) ∧
      (candidate base n).toList = base.toList ++ digits := by
  rw [candidate]
  split
  · exact ⟨[], nofun, (List.append_nil _).symm⟩
  · refine ⟨(toString (n + 1)).toList, fun c hc => ?_, String.toList_append⟩
    rw [Nat.toString_eq_ofList_toDigits, String.toList_ofList] at hc
    exact Nat.isDigit_of_mem_toDigits (by simp) (by simp) hc

/-! ### Claims -/

theorem mem_forms {suffixes : List String} {name form : String} :
    form ∈ forms suffixes name ↔ ∃ suffix ∈ "" :: suffixes, form = name ++ suffix := by
  simp [forms, eq_comm]

theorem self_mem_forms (suffixes : List String) (name : String) : name ∈ forms suffixes name :=
  List.mem_cons_self

theorem append_notMem_forms {suffixes : List String} {name suffix : String}
    (h : suffix ∉ "" :: suffixes) : name ++ suffix ∉ forms suffixes name := by
  intro hform
  obtain ⟨other, hother, heq⟩ := mem_forms.mp hform
  obtain rfl := (String.append_right_inj name).mp heq
  exact h hother

theorem isFree_iff (s : Storage) (suffixes : List String) (name : String) :
    s.isFree suffixes name = true ↔ ∀ form ∈ forms suffixes name, form ∉ s.taken := by
  simp [isFree, contains]

/-- **Some candidate is free.** Otherwise two candidates would have the same taken name as
their form with the same suffix. -/
theorem exists_isFree (s : Storage) (base : String) (suffixes : List String) :
    ∃ n ≤ s.taken.toFinset.card * (suffixes.length + 1),
      s.isFree suffixes (candidate base n) = true := by
  by_contra hall
  have hblocked : ∀ n, n ≤ s.taken.toFinset.card * (suffixes.length + 1) →
      ∃ suffix ∈ "" :: suffixes, candidate base n ++ suffix ∈ s.taken := by
    intro n hn
    by_contra hfree
    refine hall ⟨n, hn, (s.isFree_iff suffixes _).mpr fun form hform htaken => hfree ?_⟩
    obtain ⟨suffix, hsuffix, rfl⟩ := mem_forms.mp hform
    exact ⟨suffix, hsuffix, htaken⟩
  choose! suffix hmem htaken using hblocked
  have hcard : (s.taken.toFinset ×ˢ ("" :: suffixes).toFinset).card <
      (Finset.range (s.taken.toFinset.card * (suffixes.length + 1) + 1)).card := by
    rw [Finset.card_product, Finset.card_range, Nat.lt_succ_iff]
    exact Nat.mul_le_mul_left _ (List.toFinset_card_le _)
  have hmaps : Set.MapsTo (fun n => (candidate base n ++ suffix n, suffix n))
      (Finset.range (s.taken.toFinset.card * (suffixes.length + 1) + 1))
      (s.taken.toFinset ×ˢ ("" :: suffixes).toFinset : Finset (String × String)) := by
    intro n hn
    have hle := Nat.lt_succ_iff.mp (Finset.mem_range.mp hn)
    rw [Finset.mem_coe, Finset.mem_product, List.mem_toFinset, List.mem_toFinset]
    exact ⟨htaken n hle, hmem n hle⟩
  obtain ⟨m, -, n, -, hne, heq⟩ :=
    Finset.exists_ne_map_eq_of_card_lt_of_maps_to hcard hmaps
  obtain ⟨hname, hsuffix⟩ := Prod.mk.inj heq
  rw [hsuffix] at hname
  exact hne (candidate_injective base ((String.append_left_inj _).mp hname))

/-- The `n`-th candidate is the first free one from the `k`-th on. -/
structure IsFirstFree (s : Storage) (base : String) (suffixes : List String) (k n : ℕ) : Prop where
  le : k ≤ n
  free : s.isFree suffixes (candidate base n) = true
  blocked : ∀ m, k ≤ m → m < n → s.isFree suffixes (candidate base m) = false

section FirstFree

variable {s : Storage} {base : String} {suffixes : List String}

theorem IsFirstFree.unique {k m n : ℕ} (hm : s.IsFirstFree base suffixes k m)
    (hn : s.IsFirstFree base suffixes k n) : m = n := by
  rcases Nat.lt_trichotomy m n with hlt | heq | hlt
  · exact absurd hm.free (by rw [hn.blocked m hm.le hlt]; exact Bool.false_ne_true)
  · exact heq
  · exact absurd hn.free (by rw [hm.blocked n hn.le hlt]; exact Bool.false_ne_true)

/-- Behind a blocked candidate the first free one is the same. -/
theorem IsFirstFree.next {k n : ℕ} (h : s.IsFirstFree base suffixes k n) (hne : k ≠ n) :
    s.IsFirstFree base suffixes (k + 1) n :=
  ⟨Nat.lt_of_le_of_ne h.le hne, h.free, fun m hm hlt => h.blocked m (Nat.le_of_succ_le hm) hlt⟩

/-- The first free candidate comes no later than the taken names can block. -/
theorem exists_isFirstFree (s : Storage) (base : String) (suffixes : List String) :
    ∃ n ≤ s.taken.toFinset.card * (suffixes.length + 1), s.IsFirstFree base suffixes 0 n := by
  obtain ⟨n, hn, hfree⟩ := s.exists_isFree base suffixes
  have hex : ∃ n, s.isFree suffixes (candidate base n) = true := ⟨n, hfree⟩
  refine ⟨Nat.find hex, (Nat.find_min' hex hfree).trans hn, Nat.zero_le _, Nat.find_spec hex, ?_⟩
  intro m _ hm
  exact Bool.eq_false_iff.mpr (Nat.find_min hex hm)

/-- With room for all blocked candidates, the search finds the first free one. -/
theorem firstFree_eq {fuel k n : ℕ} (hfirst : s.IsFirstFree base suffixes k n)
    (hn : n ≤ k + fuel) : s.firstFree base suffixes fuel k = candidate base n := by
  induction fuel generalizing k with
  | zero =>
      obtain rfl : k = n := Nat.le_antisymm hfirst.le hn
      rfl
  | succ fuel ih =>
      rw [firstFree]
      by_cases hk : k = n
      · subst hk
        rw [if_pos hfirst.free]
      · have hlt : k < n := Nat.lt_of_le_of_ne hfirst.le hk
        rw [hfirst.blocked k (Nat.le_refl k) hlt, if_neg Bool.false_ne_true]
        exact ih (hfirst.next hk) (by omega)

theorem claimedName_eq {n : ℕ} (hn : n ≤ s.taken.toFinset.card * (suffixes.length + 1))
    (hfirst : s.IsFirstFree base suffixes 0 n) :
    s.claimedName base suffixes = candidate base n := by
  have hbound : n ≤ s.blockedBound suffixes :=
    hn.trans (Nat.mul_le_mul_right _ (List.toFinset_card_le _))
  exact firstFree_eq hfirst (by omega)

end FirstFree

/-- **A claimed name and its forms were free.** -/
theorem isFree_claimedName (s : Storage) (base : String) (suffixes : List String) :
    s.isFree suffixes (s.claimedName base suffixes) = true := by
  obtain ⟨n, hn, hfirst⟩ := s.exists_isFirstFree base suffixes
  rw [claimedName_eq hn hfirst]
  exact hfirst.free

/-- A claimed name is one of the candidates. -/
theorem claimedName_eq_candidate (s : Storage) (base : String) (suffixes : List String) :
    ∃ n, s.claimedName base suffixes = candidate base n := by
  obtain ⟨n, hn, hfirst⟩ := s.exists_isFirstFree base suffixes
  exact ⟨n, claimedName_eq hn hfirst⟩

/-! ### What is taken -/

theorem mem_reserve {s : Storage} {names : List String} {name : String} :
    name ∈ (s.reserve names).taken ↔ name ∈ names ∨ name ∈ s.taken := by
  have hfold : ∀ (names taken : List String),
      name ∈ names.foldl (fun taken name => taken.insert name) taken ↔
        name ∈ names ∨ name ∈ taken := by
    intro names
    induction names with
    | nil => intro taken; simp
    | cons first names ih =>
        intro taken
        rw [List.foldl_cons, ih, List.mem_insert_iff, List.mem_cons]
        tauto
  exact hfold names s.taken

/-- A claim takes the forms of the claimed name. -/
theorem mem_claim {s : Storage} {base : String} {suffixes : List String} {name : String} :
    name ∈ (s.claim base suffixes).2.taken ↔
      name ∈ forms suffixes (s.claimedName base suffixes) ∨ name ∈ s.taken :=
  mem_reserve

@[simp] theorem declared_claim (s : Storage) (base : String) (suffixes : List String) :
    (s.claim base suffixes).2.declared = s.declared := rfl

/-! ### What is declared -/

/-- The names of the declared variables. -/
def names (s : Storage) : List String := s.declared.map (·.name)

theorem isDeclared_iff (s : Storage) (name : String) :
    s.isDeclared name = true ↔ name ∈ s.names := by
  simp [isDeclared, index?, names]

/-- The storage with one more variable, whose name was not declared. -/
def adding (s : Storage) (v : StoredVariable) : Storage :=
  { taken := s.taken.insert v.name, declared := s.declared ++ [v] }

theorem declare_of_notMem {s : Storage} {v : StoredVariable} (h : v.name ∉ s.names) :
    s.declare v = .ok (s.adding v) := by
  rw [← isDeclared_iff] at h
  rw [declare, if_neg h, adding]

theorem declare_eq_ok {s t : Storage} {v : StoredVariable} (h : s.declare v = .ok t) :
    v.name ∉ s.names ∧ t = s.adding v := by
  rw [declare] at h
  split at h
  · cases h
  · rename_i hnot
    rw [isDeclared_iff] at hnot
    exact ⟨hnot, (Except.ok.inj h).symm⟩

@[simp] theorem names_adding (s : Storage) (v : StoredVariable) :
    (s.adding v).names = s.names ++ [v.name] := by
  simp [names, adding]

theorem mem_adding {s : Storage} {v : StoredVariable} {name : String} :
    name ∈ (s.adding v).taken ↔ name = v.name ∨ name ∈ s.taken :=
  List.mem_insert_iff

/-- The storage with more variables, none of which was declared. -/
def addingAll (s : Storage) (vs : List StoredVariable) : Storage := vs.foldl adding s

@[simp] theorem addingAll_nil (s : Storage) : s.addingAll [] = s := rfl

@[simp] theorem addingAll_cons (s : Storage) (v : StoredVariable) (vs : List StoredVariable) :
    s.addingAll (v :: vs) = (s.adding v).addingAll vs := rfl

theorem addingAll_append (s : Storage) (vs ws : List StoredVariable) :
    s.addingAll (vs ++ ws) = (s.addingAll vs).addingAll ws :=
  List.foldl_append

theorem declared_addingAll (s : Storage) (vs : List StoredVariable) :
    (s.addingAll vs).declared = s.declared ++ vs := by
  induction vs generalizing s with
  | nil => simp
  | cons v vs ih => rw [addingAll_cons, ih]; simp [adding]

theorem taken_subset_addingAll (s : Storage) (vs : List StoredVariable) :
    s.taken ⊆ (s.addingAll vs).taken := by
  induction vs generalizing s with
  | nil => exact List.Subset.refl _
  | cons v vs ih =>
      exact List.Subset.trans (fun _ hn => mem_adding.mpr (Or.inr hn)) (ih (s.adding v))

theorem names_addingAll (s : Storage) (vs : List StoredVariable) :
    (s.addingAll vs).names = s.names ++ vs.map (·.name) := by
  rw [names, declared_addingAll, List.map_append, names]

/-! ### Reachable storages -/

/-- The storages that reservations and declarations make. The compilation of a joker goes
through no others. -/
inductive Reachable : Storage → Prop
  | empty : Reachable {}
  | reserve {s : Storage} (names : List String) : Reachable s → Reachable (s.reserve names)
  | declare {s t : Storage} {v : StoredVariable} :
    Reachable s → s.declare v = .ok t → Reachable t

namespace Reachable

theorem claim {s : Storage} (h : s.Reachable) (base : String) (suffixes : List String) :
    (s.claim base suffixes).2.Reachable :=
  h.reserve _

theorem adding {s : Storage} (h : s.Reachable) {v : StoredVariable} (hv : v.name ∉ s.names) :
    (s.adding v).Reachable :=
  h.declare (declare_of_notMem hv)

/-- **Declared names are taken**, so no later claim returns one. -/
theorem declared_taken {s : Storage} (h : s.Reachable) {name : String} (hn : name ∈ s.names) :
    name ∈ s.taken := by
  induction h with
  | empty => exact absurd hn List.not_mem_nil
  | reserve names _ ih => exact mem_reserve.mpr (Or.inr (ih hn))
  | declare _ hv ih =>
      obtain ⟨-, rfl⟩ := declare_eq_ok hv
      rw [names_adding, List.mem_append, List.mem_singleton] at hn
      rcases hn with hn | rfl
      · exact mem_adding.mpr (Or.inr (ih hn))
      · exact mem_adding.mpr (Or.inl rfl)

/-- **Declared names are distinct.** -/
theorem nodup {s : Storage} (h : s.Reachable) : s.names.Nodup := by
  induction h with
  | empty => exact List.nodup_nil
  | reserve _ _ ih => exact ih
  | declare _ hv ih =>
      obtain ⟨hnot, rfl⟩ := declare_eq_ok hv
      rw [names_adding]
      exact List.nodup_append.mpr ⟨ih, List.nodup_singleton _, by
        rintro a ha b hb rfl
        exact hnot (List.mem_singleton.mp hb ▸ ha)⟩

theorem addingAll {s : Storage} (h : s.Reachable) {vs : List StoredVariable}
    (hnew : ∀ v ∈ vs, v.name ∉ s.names) (hvs : (vs.map (·.name)).Nodup) :
    (s.addingAll vs).Reachable := by
  induction vs generalizing s with
  | nil => exact h
  | cons v vs ih =>
      rw [List.map_cons, List.nodup_cons] at hvs
      refine ih (h.adding (hnew v List.mem_cons_self)) (fun w hw => ?_) hvs.2
      rw [names_adding, List.mem_append, List.mem_singleton, not_or]
      refine ⟨hnew w (List.mem_cons_of_mem v hw), fun heq => hvs.1 ?_⟩
      exact heq ▸ List.mem_map_of_mem hw

/-- After a claim, no form of the claimed name is declared. -/
theorem notMem_names_of_claim {s : Storage} (h : s.Reachable) {base form : String}
    {suffixes : List String} (hf : form ∈ forms suffixes (s.claimedName base suffixes)) :
    form ∉ s.names :=
  fun hn => (s.isFree_iff suffixes _).mp (s.isFree_claimedName base suffixes) form hf
    (h.declared_taken hn)

theorem adopt {s t : Storage} {v : Variable} (h : s.Reachable) (ht : s.adopt v = .ok t) :
    t.Reachable := by
  rw [Storage.adopt] at ht
  split at ht
  · exact (h.reserve _).declare ht
  · obtain rfl := Except.ok.inj ht
    exact h.reserve _

/-- The storage that the compilation of a joker starts from is reachable. -/
theorem ofJoker {joker : Joker} {s : Storage} (h : Storage.ofJoker joker = .ok s) :
    s.Reachable := by
  have hfold : ∀ (vars : List Variable) (t : Storage), t.Reachable →
      vars.foldlM Storage.adopt t = .ok s → s.Reachable := by
    intro vars
    induction vars with
    | nil =>
        intro t ht hs
        obtain rfl := Except.ok.inj hs
        exact ht
    | cons v vars ih =>
        intro t ht hs
        rw [List.foldlM_cons] at hs
        cases hv : t.adopt v with
        | error e =>
            rw [hv] at hs
            cases hs
        | ok u =>
            rw [hv] at hs
            exact ih u (ht.adopt hv) hs
  exact hfold joker.vars {} .empty h

end Reachable

/-! ### Growth -/

/-- The storage **grows**: nothing that is declared or taken is lost, and a name that was
taken without being declared stays so. -/
structure Grows (s t : Storage) : Prop where
  declared : s.declared ⊆ t.declared
  taken : s.taken ⊆ t.taken
  untouched : ∀ name ∈ s.taken, name ∈ t.names → name ∈ s.names

namespace Grows

theorem refl (s : Storage) : s.Grows s :=
  ⟨List.Subset.refl _, List.Subset.refl _, fun _ _ hn => hn⟩

theorem trans {s t u : Storage} (hst : s.Grows t) (htu : t.Grows u) : s.Grows u :=
  ⟨List.Subset.trans hst.declared htu.declared, List.Subset.trans hst.taken htu.taken,
    fun name hname hu => hst.untouched name hname (htu.untouched name (hst.taken hname) hu)⟩

/-- A claim and the declaration of some forms of the claimed name. -/
theorem claim_addingAll (s : Storage) (base : String) (suffixes : List String)
    {vs : List StoredVariable}
    (hvs : ∀ v ∈ vs, v.name ∈ forms suffixes (s.claimedName base suffixes)) :
    s.Grows ((s.claim base suffixes).2.addingAll vs) := by
  refine ⟨?_, fun name hname => ?_, fun name hname hdeclared => ?_⟩
  · rw [declared_addingAll, declared_claim]
    exact List.subset_append_left _ _
  · exact taken_subset_addingAll _ vs (mem_claim.mpr (Or.inr hname))
  · rw [names_addingAll, List.mem_append] at hdeclared
    rcases hdeclared with hold | hnew
    · exact hold
    · obtain ⟨v, hv, rfl⟩ := List.mem_map.mp hnew
      have hfree := (s.isFree_iff suffixes _).mp (s.isFree_claimedName base suffixes)
      exact absurd hname (hfree _ (hvs v hv))

end Grows

end Storage

end JokerScript
