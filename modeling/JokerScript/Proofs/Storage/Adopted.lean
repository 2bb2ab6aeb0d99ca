import JokerScript.Proofs.Storage.Names

/-!
# Adopted Variables

The storage of a joker begins with the variables of its author. Those of the other kinds are
only reserved, and the **numbers** are declared in order. This fails exactly if two numbers
have one name, and then at the first name that is repeated.

## Main definitions

* `Joker.numberVars`, `Joker.numberNames` — the numbers of a joker.
* `IsFirstRepeat` — the first element of a list that is repeated.

## Main results

* `nodup_or_isFirstRepeat` — a list has no repetition, or a first one.
* `Storage.ofJoker_of_nodup`, `Storage.ofJoker_of_isFirstRepeat` — the outcomes.
-/

namespace JokerScript

/-! ### First repetitions -/

/-- The element is the **first** one of the list that stood in it before. -/
def IsFirstRepeat {α : Type} (as : List α) (a : α) : Prop :=
  ∃ seen rest, as = seen ++ a :: rest ∧ seen.Nodup ∧ a ∈ seen

section FirstRepeat

variable {α : Type} {as : List α} {a b : α}

theorem IsFirstRepeat.not_nodup (h : IsFirstRepeat as a) : ¬as.Nodup := by
  obtain ⟨seen, rest, rfl, -, hmem⟩ := h
  intro hnodup
  exact List.disjoint_of_nodup_append hnodup hmem List.mem_cons_self

/-- **There is only one first repetition.** -/
theorem IsFirstRepeat.unique (ha : IsFirstRepeat as a) (hb : IsFirstRepeat as b) : a = b := by
  -- The one that comes later stands behind a repetition, so what stands before it has one.
  have hlater : ∀ {a b : α} {seen more rest others : List α}, a ∈ seen →
      (seen ++ more).Nodup → a :: rest = more ++ b :: others → a = b := by
    intro a b seen more rest others hmem hnodup heq
    cases more with
    | nil => exact (List.cons.inj heq).1
    | cons c more =>
        obtain ⟨rfl, -⟩ := List.cons.inj heq
        exact absurd List.mem_cons_self (List.disjoint_of_nodup_append hnodup hmem)
  obtain ⟨seen, rest, rfl, hseen, hmem⟩ := ha
  obtain ⟨seen', rest', heq, hseen', hmem'⟩ := hb
  rcases List.append_eq_append_iff.mp heq with ⟨more, rfl, hrest⟩ | ⟨more, rfl, hrest⟩
  · exact hlater hmem hseen' hrest
  · exact (hlater hmem' hseen hrest).symm

/-- A list without repetition may be followed by a list that brings the first one. -/
theorem nodup_append_or_isFirstRepeat (seen as : List α) (hseen : seen.Nodup) :
    (seen ++ as).Nodup ∨ ∃ a, IsFirstRepeat (seen ++ as) a := by
  induction as generalizing seen with
  | nil => exact Or.inl (by rwa [List.append_nil])
  | cons a as ih =>
      by_cases ha : a ∈ seen
      · exact Or.inr ⟨a, seen, as, rfl, hseen, ha⟩
      · have hnext : (seen ++ [a]).Nodup := List.concat_eq_append ▸ hseen.concat ha
        simpa using ih (seen ++ [a]) hnext

/-- **A list has no repetition, or a first one.** -/
theorem nodup_or_isFirstRepeat (as : List α) : as.Nodup ∨ ∃ a, IsFirstRepeat as a :=
  nodup_append_or_isFirstRepeat [] as List.nodup_nil

/-- Among the lists of some items none has a repetition, or there is a first one that has. -/
theorem forall_nodup_or_isFirstRepeat {β : Type} (f : β → List α) (bs : List β) :
    (∀ b ∈ bs, (f b).Nodup) ∨
      ∃ before b after a, bs = before ++ b :: after ∧ (∀ c ∈ before, (f c).Nodup) ∧
        IsFirstRepeat (f b) a := by
  induction bs with
  | nil => exact Or.inl nofun
  | cons b bs ih =>
      rcases nodup_or_isFirstRepeat (f b) with hb | ⟨a, ha⟩
      · rcases ih with hall | ⟨before, c, after, a, rfl, hbefore, ha⟩
        · exact Or.inl (List.forall_mem_cons.mpr ⟨hb, hall⟩)
        · exact Or.inr ⟨b :: before, c, after, a, rfl, List.forall_mem_cons.mpr ⟨hb, hbefore⟩, ha⟩
      · exact Or.inr ⟨[], b, bs, a, rfl, nofun, ha⟩

end FirstRepeat

/-! ### Numbers -/

/-- The variable that is declared for a number. -/
def Variable.stored? (v : Variable) : Option StoredVariable :=
  if v.kind = .number then some ⟨v.name, v.initial⟩ else none

namespace Joker

/-- The numbers of a joker in the order of the author, with their initial values. -/
def numberVars (joker : Joker) : List StoredVariable := joker.vars.filterMap Variable.stored?

/-- The names of the numbers of a joker. -/
def numberNames (joker : Joker) : List String := joker.numberVars.map (·.name)

end Joker

/-! ### Adoption -/

namespace Storage

@[simp] theorem names_reserve (s : Storage) (names : List String) :
    (s.reserve names).names = s.names := rfl

theorem adopt_of_none {s : Storage} {v : Variable} (h : v.stored? = none) :
    s.adopt v = .ok (s.reserve [v.name]) := by
  have hkind : v.kind ≠ .number := by simpa [Variable.stored?] using h
  rw [adopt, if_neg hkind]

theorem adopt_of_some {s : Storage} {v : Variable} {n : StoredVariable} (h : v.stored? = some n) :
    s.adopt v = (s.reserve [n.name]).declare n := by
  have hkind : v.kind = .number := by
    by_contra hkind
    rw [Variable.stored?, if_neg hkind] at h
    cases h
  rw [Variable.stored?, if_pos hkind] at h
  obtain rfl := Option.some.inj h
  rw [adopt, if_pos hkind]

/-- Variables are taken up in order as long as no number is repeated. -/
theorem foldlM_adopt_of_nodup {vars : List Variable} {s : Storage}
    (h : (s.names ++ (vars.filterMap Variable.stored?).map (·.name)).Nodup) :
    ∃ t, vars.foldlM adopt s = .ok t ∧
      t.declared = s.declared ++ vars.filterMap Variable.stored? ∧ s.taken ⊆ t.taken ∧
      ∀ v ∈ vars, v.name ∈ t.taken := by
  induction vars generalizing s with
  | nil => exact ⟨s, rfl, (List.append_nil _).symm, List.Subset.refl _, nofun⟩
  | cons v vars ih =>
      rw [List.foldlM_cons]
      cases hv : v.stored? with
      | none =>
          rw [List.filterMap_cons_none hv] at h
          obtain ⟨t, hrun, hdeclared, htaken, hvars⟩ := ih (s := s.reserve [v.name]) h
          rw [adopt_of_none hv, List.filterMap_cons_none hv]
          refine ⟨t, hrun, hdeclared, fun name hname => ?_, List.forall_mem_cons.mpr ⟨?_, hvars⟩⟩
          · exact htaken (mem_reserve.mpr (Or.inr hname))
          · exact htaken (mem_reserve.mpr (Or.inl (List.mem_singleton_self _)))
      | some n =>
          have hname : n.name = v.name := by
            rw [Variable.stored?] at hv
            split at hv
            · exact congrArg (·.name) (Option.some.inj hv).symm
            · cases hv
          rw [List.filterMap_cons_some hv, List.map_cons] at h
          have hnew : n.name ∉ (s.reserve [n.name]).names := fun hmem =>
            List.disjoint_of_nodup_append h hmem List.mem_cons_self
          have hrest : (((s.reserve [n.name]).adding n).names ++
              (vars.filterMap Variable.stored?).map (·.name)).Nodup := by
            rw [names_adding, names_reserve, List.append_assoc]
            exact h
          obtain ⟨t, hrun, hdeclared, htaken, hvars⟩ := ih hrest
          rw [adopt_of_some hv, declare_of_notMem hnew, List.filterMap_cons_some hv]
          refine ⟨t, hrun, ?_, fun name hmem => ?_, List.forall_mem_cons.mpr ⟨?_, hvars⟩⟩
          · rw [hdeclared]
            simp [adding, reserve]
          · exact htaken (mem_adding.mpr (Or.inr (mem_reserve.mpr (Or.inr hmem))))
          · exact htaken (mem_adding.mpr (Or.inl hname.symm))

/-- The first number that is repeated ends it. -/
theorem foldlM_adopt_of_isFirstRepeat {vars : List Variable} {s : Storage} (hs : s.names.Nodup)
    {name : String}
    (h : IsFirstRepeat (s.names ++ (vars.filterMap Variable.stored?).map (·.name)) name) :
    vars.foldlM adopt s = .error (.duplicateConfigVariable name) := by
  induction vars generalizing s with
  | nil => exact absurd (by simpa using hs) h.not_nodup
  | cons v vars ih =>
      rw [List.foldlM_cons]
      cases hv : v.stored? with
      | none =>
          rw [List.filterMap_cons_none hv] at h
          rw [adopt_of_none hv]
          exact ih (s := s.reserve [v.name]) hs h
      | some n =>
          rw [List.filterMap_cons_some hv, List.map_cons] at h
          rw [adopt_of_some hv]
          by_cases hmem : n.name ∈ s.names
          · obtain rfl := h.unique ⟨s.names, _, rfl, hs, hmem⟩
            have hdeclared : (s.reserve [n.name]).isDeclared n.name = true :=
              (isDeclared_iff _ _).mpr hmem
            rw [declare, if_pos hdeclared]
            rfl
          · have hnext : ((s.reserve [n.name]).adding n).names = s.names ++ [n.name] :=
              names_adding _ _
            rw [declare_of_notMem (s := s.reserve [n.name]) hmem]
            refine ih ?_ ?_
            · rw [hnext]
              exact List.concat_eq_append ▸ hs.concat hmem
            · rw [hnext, List.append_assoc]
              exact h

/-- **Without a repetition the storage is made**: it declares the numbers, and takes the names
of all variables. -/
theorem ofJoker_of_nodup {joker : Joker} (h : joker.numberNames.Nodup) :
    ∃ start, ofJoker joker = .ok start ∧ start.declared = joker.numberVars ∧
      ∀ v ∈ joker.vars, v.name ∈ start.taken := by
  obtain ⟨start, hrun, hdeclared, -, htaken⟩ := foldlM_adopt_of_nodup (s := {}) h
  exact ⟨start, hrun, hdeclared, htaken⟩

/-- **The first repetition is the error.** -/
theorem ofJoker_of_isFirstRepeat {joker : Joker} {name : String}
    (h : IsFirstRepeat joker.numberNames name) :
    ofJoker joker = .error (.duplicateConfigVariable name) :=
  foldlM_adopt_of_isFirstRepeat (s := {}) List.nodup_nil h

/-- What the storage of a joker begins with. -/
theorem ofJoker_eq_ok {joker : Joker} {start : Storage} (h : ofJoker joker = .ok start) :
    start.declared = joker.numberVars ∧ ∀ v ∈ joker.vars, v.name ∈ start.taken := by
  rcases nodup_or_isFirstRepeat joker.numberNames with hnodup | ⟨name, hname⟩
  · obtain ⟨start', hstart', hspec⟩ := ofJoker_of_nodup hnodup
    obtain rfl := Except.ok.inj (hstart'.symm.trans h)
    exact hspec
  · rw [ofJoker_of_isFirstRepeat hname] at h
    cases h

end Storage

end JokerScript
