import JokerScript.Proofs.Resolve.Settled
import JokerScript.Proofs.Storage.Served

/-!
# Turns of a Compilation

Rules, conditions and effects are compiled one after the other on the storage of a joker.
The **turn** of an item tells what it was compiled to, and the storage before and after. An
item that fails has no turn: the next one begins where it began.

A computation is **orderly** if a success keeps the storage reachable and only extends it.
Then the storages of the turns form a chain, from the first storage to the last one.

## Main definitions

* `Turn`, `turns`, `lastStorage` — the turns of a list of items, and the storage at the end.
* `Orderly` — computations that only extend a storage.
* `Chained` — turns one after the other.

## Main results

* `mem_turns_between`, `chained_turns`, `Chained.flatMap` — the storages form a chain.
* `map_item_turns` — the items that have turns.
* `run_mapM_turns` — when no item fails, the turns are the run of the list.
-/

namespace JokerScript

/-- The **turn** of an item in a compilation. -/
structure Turn (α β : Type) where
  item : α
  before : Storage
  code : β
  after : Storage

section Turns

variable {ε α β : Type}

/-- The turns of items that are compiled one after the other. An item that fails leaves the
storage as it was. -/
def turns (f : α → ExceptT ε (StateM Storage) β) : Storage → List α → List (Turn α β)
  | _, [] => []
  | s, a :: rest =>
    match (f a).run s with
    | (.ok b, t) => ⟨a, s, b, t⟩ :: turns f t rest
    | (.error _, _) => turns f s rest

/-- The storage after the last turn, and `s` if there is none. -/
def lastStorage (s : Storage) (ts : List (Turn α β)) : Storage :=
  ts.foldl (fun _ turn => turn.after) s

variable {f : α → ExceptT ε (StateM Storage) β} {s t : Storage} {a : α} {as bs : List α} {b : β}

@[simp] theorem turns_nil (f : α → ExceptT ε (StateM Storage) β) (s : Storage) :
    turns f s [] = [] := rfl

@[simp] theorem lastStorage_nil (s : Storage) : lastStorage s ([] : List (Turn α β)) = s := rfl

@[simp] theorem lastStorage_cons (s : Storage) (turn : Turn α β) (ts : List (Turn α β)) :
    lastStorage s (turn :: ts) = lastStorage turn.after ts := rfl

theorem lastStorage_append (s : Storage) (ts us : List (Turn α β)) :
    lastStorage s (ts ++ us) = lastStorage (lastStorage s ts) us :=
  List.foldl_append

theorem turns_cons_of_ok (h : (f a).run s = (.ok b, t)) (as : List α) :
    turns f s (a :: as) = ⟨a, s, b, t⟩ :: turns f t as := by
  rw [turns, h]

theorem turns_cons_of_error {e : ε} (h : (f a).run s = (.error e, t)) (as : List α) :
    turns f s (a :: as) = turns f s as := by
  rw [turns, h]

theorem turns_append (f : α → ExceptT ε (StateM Storage) β) (s : Storage) (as bs : List α) :
    turns f s (as ++ bs) = turns f s as ++ turns f (lastStorage s (turns f s as)) bs := by
  -- The induction is on the run: it tells the item that fails from the one that has a turn.
  induction s, as using turns.induct f with
  | case1 s => rfl
  | case2 s a as b t hrun ih =>
      rw [List.cons_append, turns_cons_of_ok hrun, turns_cons_of_ok hrun, ih]
      rfl
  | case3 s a as e t hrun ih =>
      rw [List.cons_append, turns_cons_of_error hrun, turns_cons_of_error hrun, ih]

/-- A turn is a run of its item. -/
theorem run_of_mem_turns {turn : Turn α β} (h : turn ∈ turns f s as) :
    turn.item ∈ as ∧ (f turn.item).run turn.before = (.ok turn.code, turn.after) := by
  induction s, as using turns.induct f with
  | case1 s => exact absurd h List.not_mem_nil
  | case2 s a as b t hrun ih =>
      rw [turns_cons_of_ok hrun] at h
      rcases List.mem_cons.mp h with rfl | h
      · exact ⟨List.mem_cons_self, hrun⟩
      · obtain ⟨hmem, hturn⟩ := ih h
        exact ⟨List.mem_cons_of_mem a hmem, hturn⟩
  | case3 s a as e t hrun ih =>
      rw [turns_cons_of_error hrun] at h
      obtain ⟨hmem, hturn⟩ := ih h
      exact ⟨List.mem_cons_of_mem a hmem, hturn⟩

/-- The variables that the turns declare, one turn after the other. -/
theorem declared_lastStorage {vars : Turn α β → List StoredVariable}
    (h : ∀ turn ∈ turns f s as, turn.after.declared = turn.before.declared ++ vars turn) :
    (lastStorage s (turns f s as)).declared = s.declared ++ (turns f s as).flatMap vars := by
  induction s, as using turns.induct f with
  | case1 s => exact (List.append_nil _).symm
  | case2 s a as b t hrun ih =>
      rw [turns_cons_of_ok hrun, List.forall_mem_cons] at h
      rw [turns_cons_of_ok hrun, lastStorage_cons, ih h.2, h.1, List.flatMap_cons,
        List.append_assoc]
  | case3 s a as e t hrun ih =>
      rw [turns_cons_of_error hrun] at h ⊢
      exact ih h

/-! ### Orderly computations -/

/-- The computations are **orderly**: a success keeps the storage reachable and only extends
it. -/
def Orderly (f : α → ExceptT ε (StateM Storage) β) : Prop :=
  ∀ ⦃s t : Storage⦄ ⦃a : α⦄ ⦃b : β⦄, s.Reachable → (f a).run s = (.ok b, t) →
    t.Reachable ∧ s.Extends t

theorem lastStorage_spec (hf : Orderly f) (hs : s.Reachable) (as : List α) :
    (lastStorage s (turns f s as)).Reachable ∧ s.Extends (lastStorage s (turns f s as)) := by
  induction s, as using turns.induct f with
  | case1 s => exact ⟨hs, Storage.Extends.refl s⟩
  | case2 s a as b t hrun ih =>
      obtain ⟨ht, hst⟩ := hf hs hrun
      obtain ⟨hlast, hext⟩ := ih ht
      rw [turns_cons_of_ok hrun, lastStorage_cons]
      exact ⟨hlast, hst.trans hext⟩
  | case3 s a as e t hrun ih =>
      rw [turns_cons_of_error hrun]
      exact ih hs

/-- **Every turn lies between the first storage and the last one.** -/
theorem mem_turns_between (hf : Orderly f) (hs : s.Reachable) {turn : Turn α β}
    (h : turn ∈ turns f s as) :
    turn.before.Reachable ∧ s.Extends turn.before ∧
      turn.after.Extends (lastStorage s (turns f s as)) := by
  induction s, as using turns.induct f with
  | case1 s => exact absurd h List.not_mem_nil
  | case2 s a as b t hrun ih =>
      obtain ⟨ht, hst⟩ := hf hs hrun
      rw [turns_cons_of_ok hrun] at h ⊢
      rw [lastStorage_cons]
      rcases List.mem_cons.mp h with rfl | h
      · exact ⟨hs, Storage.Extends.refl s, (lastStorage_spec hf ht as).2⟩
      · obtain ⟨hbefore, hext, hafter⟩ := ih ht h
        exact ⟨hbefore, hst.trans hext, hafter⟩
  | case3 s a as e t hrun ih =>
      rw [turns_cons_of_error hrun] at h ⊢
      exact ih hs h

/-- The turns are **chained**: a later one begins in a storage that extends those of the earlier
ones. -/
def Chained (ts : List (Turn α β)) : Prop :=
  ts.Pairwise fun first second => first.after.Extends second.before

/-- **The turns of an orderly computation are chained.** -/
theorem chained_turns (hf : Orderly f) (hs : s.Reachable) (as : List α) :
    Chained (turns f s as) := by
  induction s, as using turns.induct f with
  | case1 s => exact .nil
  | case2 s a as b t hrun ih =>
      obtain ⟨ht, -⟩ := hf hs hrun
      rw [turns_cons_of_ok hrun]
      exact .cons (fun turn hturn => (mem_turns_between hf ht hturn).2.1) (ih ht)
  | case3 s a as e t hrun ih =>
      rw [turns_cons_of_error hrun]
      exact ih hs

/-- When it does not depend on the storage which items fail, just the others have turns. -/
theorem map_item_turns {fits : α → Bool} (hf : Orderly f)
    (hok : ∀ a ∈ as, fits a = true → ∀ {s : Storage}, s.Reachable →
      ∃ b t, (f a).run s = (.ok b, t))
    (herror : ∀ a ∈ as, fits a = false → ∀ {s : Storage}, s.Reachable →
      ∃ e t, (f a).run s = (.error e, t))
    (hs : s.Reachable) : (turns f s as).map (·.item) = as.filter fits := by
  induction as generalizing s with
  | nil => rfl
  | cons a as ih =>
      rw [List.forall_mem_cons] at hok herror
      cases hfits : fits a with
      | true =>
          obtain ⟨b, t, hrun⟩ := hok.1 hfits hs
          rw [turns_cons_of_ok hrun, List.map_cons, ih hok.2 herror.2 (hf hs hrun).1,
            List.filter_cons_of_pos hfits]
      | false =>
          obtain ⟨e, t, hrun⟩ := herror.1 hfits hs
          rw [turns_cons_of_error hrun, ih hok.2 herror.2 hs,
            List.filter_cons_of_neg (by rw [hfits]; exact Bool.false_ne_true)]

/-- **When no item fails**, every item has its turn, and the codes and the last storage are
those of the run. -/
theorem run_mapM_turns (hf : Orderly f)
    (hok : ∀ a ∈ as, ∀ {s : Storage}, s.Reachable → ∃ b t, (f a).run s = (.ok b, t))
    (hs : s.Reachable) :
    (as.mapM f).run s = (.ok ((turns f s as).map (·.code)), lastStorage s (turns f s as)) ∧
      (turns f s as).map (·.item) = as := by
  induction as generalizing s with
  | nil => exact ⟨rfl, rfl⟩
  | cons a as ih =>
      rw [List.forall_mem_cons] at hok
      obtain ⟨b, t, hrun⟩ := hok.1 hs
      obtain ⟨hrest, hitems⟩ := ih hok.2 (hf hs hrun).1
      rw [turns_cons_of_ok hrun, List.mapM_cons, Resolver.run_bind_of_ok _ hrun,
        Resolver.run_bind_of_ok _ hrest, List.map_cons, List.map_cons, hitems]
      exact ⟨rfl, rfl⟩

end Turns

/-! ### Turns inside turns -/

section Inner

variable {α β γ δ : Type}

/-- The same turn, of another item and with another code. -/
def Turn.map (f : α → γ) (g : β → δ) (turn : Turn α β) : Turn γ δ :=
  ⟨f turn.item, turn.before, g turn.code, turn.after⟩

theorem Chained.map {ts : List (Turn α β)} (h : Chained ts) (f : α → γ) (g : β → δ) :
    Chained (ts.map (Turn.map f g)) :=
  List.pairwise_map.mpr h

/-- Chained turns inside chained turns are chained. -/
theorem Chained.flatMap {ts : List (Turn α β)} {inner : Turn α β → List (Turn γ δ)}
    (h : Chained ts) (hinner : ∀ turn ∈ ts, Chained (inner turn) ∧
      ∀ part ∈ inner turn, turn.before.Extends part.before ∧ part.after.Extends turn.after) :
    Chained (ts.flatMap inner) := by
  refine List.pairwise_flatMap.mpr ⟨fun turn hturn => (hinner turn hturn).1, ?_⟩
  refine List.Pairwise.imp_of_mem ?_ h
  intro first second hfirst hsecond hbetween x hx y hy
  have hbefore := ((hinner first hfirst).2 x hx).2
  have hafter := ((hinner second hsecond).2 y hy).1
  exact hbefore.trans (hbetween.trans hafter)

end Inner

end JokerScript
