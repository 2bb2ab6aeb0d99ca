import JokerScript.Proofs.Storage.Names

/-!
# The Search for a Free Name

A claim tries the candidates of its base in order and stops at the first that is free in all its
forms. The search itself has no limit: as a relation it runs on as long as candidates are blocked.
It ends all the same, since a taken name blocks at most one candidate for each form, and so the
limit that the definition of a claim carries is never what ends it.

## Main definitions

* `Storage.Search` — the search without a limit, with the candidates it tries.

## Main results

* `Storage.search_iff` — a search ends at the first free candidate, or never.
* `Storage.search_claim` — the search of a claim: where it ends, what it tries, what it takes.
-/

namespace JokerScript

namespace Storage

variable {s : Storage} {base : String} {suffixes : List String}

/-- `s.Search base suffixes n tried name`: from the `n`-th candidate on, the search tries the
candidates `tried` and ends with `name`. -/
inductive Search (s : Storage) (base : String) (suffixes : List String) :
    ℕ → List String → String → Prop
  | found {n : ℕ} (hfree : s.isFree suffixes (candidate base n) = true) :
      Search s base suffixes n [candidate base n] (candidate base n)
  | blocked {n : ℕ} {tried : List String} {name : String}
      (htaken : s.isFree suffixes (candidate base n) = false)
      (h : Search s base suffixes (n + 1) tried name) :
      Search s base suffixes n (candidate base n :: tried) name

/-- **A search ends at the first free candidate**, after it has tried all up to that one. -/
theorem search_iff {k : ℕ} {tried : List String} {name : String} :
    s.Search base suffixes k tried name ↔
      ∃ n, s.IsFirstFree base suffixes k n ∧
        tried = (List.range' k (n + 1 - k)).map (candidate base) ∧ name = candidate base n := by
  constructor
  · intro h
    induction h with
    | @found n hfree =>
        refine ⟨n, ⟨Nat.le_refl n, hfree, fun m hle hlt => absurd hlt (by omega)⟩, ?_, rfl⟩
        rw [Nat.add_sub_cancel_left]
        rfl
    | @blocked k tried name htaken _ ih =>
        obtain ⟨n, hfirst, rfl, rfl⟩ := ih
        have hle := hfirst.le
        refine ⟨n, ⟨by omega, hfirst.free, fun m hm hlt => ?_⟩, ?_, rfl⟩
        · rcases Nat.eq_or_lt_of_le hm with rfl | hm
          · exact htaken
          · exact hfirst.blocked m hm hlt
        · have hlength : n + 1 - k = n + 1 - (k + 1) + 1 := by omega
          rw [hlength, List.range'_succ, List.map_cons]
  · rintro ⟨n, hfirst, rfl, rfl⟩
    -- On the number of candidates that are blocked.
    obtain ⟨d, rfl⟩ := Nat.exists_eq_add_of_le hfirst.le
    induction d generalizing k with
    | zero =>
        rw [Nat.add_zero, Nat.add_sub_cancel_left]
        exact .found hfirst.free
    | succ d ih =>
        have hlast : k + (d + 1) = k + 1 + d := by omega
        have hlength : k + (d + 1) + 1 - k = k + 1 + d + 1 - (k + 1) + 1 := by omega
        have hnext : s.IsFirstFree base suffixes (k + 1) (k + 1 + d) := by
          rw [← hlast]
          exact hfirst.next (by omega)
        rw [hlength, List.range'_succ, List.map_cons, hlast]
        exact .blocked (hfirst.blocked k (Nat.le_refl k) (by omega)) (ih hnext)

theorem toFinset_taken_claim (s : Storage) (base : String) (suffixes : List String) :
    (s.claim base suffixes).2.taken.toFinset =
      s.taken.toFinset ∪ (forms suffixes (s.claimedName base suffixes)).toFinset := by
  ext name
  rw [List.mem_toFinset, mem_claim, Finset.mem_union, List.mem_toFinset, List.mem_toFinset, or_comm]

/-- **The search of a claim.** For whatever names are taken, every base and all suffixes, it
tries the candidates `0, …, n` and no more, whose number is at most that of the taken names times
the number of forms, plus one; there is no other search, and it ends with the name that the claim
returns. All forms of that name were free, and of each candidate before it some form was taken.
Afterwards just the forms of the claimed name are taken besides, and nothing more is declared. -/
theorem search_claim (s : Storage) (base : String) (suffixes : List String) :
    ∃ n, n + 1 ≤ s.taken.toFinset.card * (suffixes.length + 1) + 1 ∧
      (∀ tried name, s.Search base suffixes 0 tried name ↔
        tried = (List.range (n + 1)).map (candidate base) ∧
          name = (s.claim base suffixes).1) ∧
      (s.claim base suffixes).1 = candidate base n ∧
      (∀ form ∈ forms suffixes (candidate base n), form ∉ s.taken) ∧
      (∀ m < n, ∃ form ∈ forms suffixes (candidate base m), form ∈ s.taken) ∧
      (s.claim base suffixes).2.taken.toFinset =
        s.taken.toFinset ∪ (forms suffixes (s.claim base suffixes).1).toFinset ∧
      (s.claim base suffixes).2.declared = s.declared := by
  obtain ⟨n, hn, hfirst⟩ := s.exists_isFirstFree base suffixes
  have hname : (s.claim base suffixes).1 = candidate base n := claimedName_eq hn hfirst
  refine ⟨n, Nat.succ_le_succ hn, fun tried name => ?_, hname,
    (s.isFree_iff suffixes _).mp hfirst.free, fun m hm => ?_, s.toFinset_taken_claim base suffixes,
    s.declared_claim base suffixes⟩
  · rw [search_iff, hname, List.range_eq_range']
    constructor
    · rintro ⟨m, hm, htried, hend⟩
      obtain rfl := hm.unique hfirst
      exact ⟨htried, hend⟩
    · rintro ⟨htried, hend⟩
      exact ⟨n, hfirst, htried, hend⟩
  · have htaken := hfirst.blocked m (Nat.zero_le m) hm
    by_contra! hnone
    rw [(s.isFree_iff suffixes _).mpr hnone] at htaken
    cases htaken

/-- A taken form blocks a name that is free itself. -/
example : (claim ⟨["count_min"], []⟩ "count" valueSuffixes).1 = "count2" := by decide +kernel

end Storage

end JokerScript
