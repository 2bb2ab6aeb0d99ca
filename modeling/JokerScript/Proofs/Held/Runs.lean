import Mathlib.Algebra.BigOperators.Group.Finset.Piecewise
import Mathlib.Tactic.Ring
import JokerScript.Proofs.Held.Blocks

/-!
# Runs of Held Changes

Jokers come and go in any order, and meanwhile other things change the number of hands. What
the blocks do to it is told by a balance: the number of hands is what it would be without
any of the effects, plus the changes that the records count. Each event keeps the balance,
so it holds after each run, and an effect that is gone has no part in it.

## Main definitions

* `HeldEvent`, `HeldEvent.runAll` — what happens, and runs.
* `Settles` — the order of the events of one effect.
* `HeldChange.Clear` — the records of an effect that is not held.
* `HeldLaws` — what holds of all runs.

## Main results

* `heldLaws` — the laws, for effects that fit a storage and are apart from each other.
-/

namespace JokerScript

open Lua

variable {W : Type} {host : Host W} {final : Storage} {changes : List HeldChange}
  {s t u : State W}

/-! ### Events -/

/-- What happens while a list of effects is in play. -/
inductive HeldEvent (W : Type) where
  /-- The joker with the effect at the position is gained. -/
  | gained (i : ℕ)
  /-- The joker with the effect at the position is lost. -/
  | lost (i : ℕ)
  /-- Something else changes the state, and adds `d` to the number of hands. -/
  | outside (d : ℚ) (change : State W → State W)

namespace HeldEvent

/-- The state after an event. -/
def run (host : Host W) (blocks : List EffectBlocks) (s : State W) :
    HeldEvent W → Option (State W)
  | gained i => blocks[i]?.bind fun b => b.onGain host s
  | lost i => blocks[i]?.bind fun b => b.onLoss host s
  | outside _ change => some (change s)

/-- The state after events in order. -/
def runAll (host : Host W) (blocks : List EffectBlocks) (events : List (HeldEvent W))
    (s : State W) : Option (State W) :=
  events.foldlM (run host blocks) s

theorem runAll_cons (host : Host W) (blocks : List EffectBlocks) (e : HeldEvent W)
    (events : List (HeldEvent W)) (s : State W) :
    runAll host blocks (e :: events) s =
      (e.run host blocks s).bind fun t => runAll host blocks events t :=
  List.foldlM_cons

theorem runAll_append (host : Host W) (blocks : List EffectBlocks)
    (first second : List (HeldEvent W)) (s : State W) :
    runAll host blocks (first ++ second) s =
      (runAll host blocks first s).bind fun t => runAll host blocks second t :=
  List.foldlM_append

/-- What an event that is not about an effect adds to the number of hands. -/
def added : HeldEvent W → ℚ
  | gained _ | lost _ => 0
  | outside d _ => d

/-- Does the event begin or end the time that the effect at a position is held? -/
def turn? (i : ℕ) : HeldEvent W → Option Bool
  | gained j => if j = i then some true else none
  | lost j => if j = i then some false else none
  | outside .. => none

/-- The events of the effect at a position, in order: `true` for a gain, `false` for a loss. -/
def turns (i : ℕ) (events : List (HeldEvent W)) : List Bool := events.filterMap (turn? i)

/-- The event may happen. What happens outside keeps states playable and leaves the records
alone, and adds to the number of hands what it says. -/
def Allowed (final : Storage) (changes : List HeldChange) : HeldEvent W → Prop
  | gained i | lost i => i < changes.length
  | outside d change => ∀ s, Playable final changes s →
    Playable final changes (change s) ∧
    (∀ q, s.Shows HandChange.roundHands q → (change s).Shows HandChange.roundHands (q + d)) ∧
    ∀ c ∈ changes, ∀ x ∈ [c.applied, c.original],
      (change s).read (storedPath x) = s.read (storedPath x)

end HeldEvent

/-- The turns of one effect are in order: it is gained only while it is not held, and in the end it
is not held. So it is, if it is gained once and lost once later. -/
def Settles : Bool → List Bool → Prop
  | held, [] => held = false
  | held, true :: rest => held = false ∧ Settles true rest
  | _, false :: rest => Settles false rest

example : Settles false [true, false] := ⟨rfl, rfl⟩

/-- After an event about the effect at `j`, the turns of all effects are still in order. -/
theorem settles_of_turn {n j : ℕ} {b : Bool} {e : HeldEvent W} {events : List (HeldEvent W)}
    {held : ℕ → Bool} (he : ∀ i, e.turn? i = if j = i then some b else none) (hj : j < n)
    (hturns : ∀ i < n, Settles (held i) (HeldEvent.turns i (e :: events))) :
    (b = true → held j = false) ∧
      ∀ i < n, Settles (Function.update held j b i) (HeldEvent.turns i events) := by
  have hself : HeldEvent.turns j (e :: events) = b :: HeldEvent.turns j events :=
    List.filterMap_cons_some (by rw [he, if_pos rfl])
  have hsettles := hturns j hj
  rw [hself] at hsettles
  constructor
  · rintro rfl
    exact hsettles.1
  · intro i hi
    by_cases hij : i = j
    · subst hij
      rw [Function.update_self]
      cases b with
      | true => exact hsettles.2
      | false => exact hsettles
    · have hother : HeldEvent.turns i (e :: events) = HeldEvent.turns i events :=
        List.filterMap_cons_none (by rw [he, if_neg (Ne.symm hij)])
      rw [Function.update_of_ne hij, ← hother]
      exact hturns i hi

/-! ### Records -/

/-- The variables of the joker as the game makes them: each declared one holds the number that
it starts from, and no other is there. -/
def Loaded (final : Storage) (s : State W) : Prop :=
  (∀ v ∈ final.declared, s.read (storedPath v.name) = some (.number v.value.literalValue)) ∧
    ∀ name, DotFree name → name ∉ final.names → s.read (storedPath name) = some .nil

namespace HeldChange

/-- The records of an effect that is not held: no change was applied, and no number was seen
before. -/
def Clear (c : HeldChange) (s : State W) : Prop :=
  match c.operation with
  | .add | .subtract => s.Shows (storedPath c.applied) 0
  | .set => s.read (storedPath c.original) = some .nil

variable {c d : HeldChange}

theorem clear_iff_applied (hop : c.operation ≠ .set) :
    c.Clear s ↔ s.Shows (storedPath c.applied) 0 := by
  rw [Clear]
  cases hc : c.operation with
  | add => exact Iff.rfl
  | subtract => exact Iff.rfl
  | set => exact absurd hc hop

theorem clear_iff_original (hop : c.operation = .set) :
    c.Clear s ↔ s.read (storedPath c.original) = some .nil := by
  rw [Clear, hop]

/-- **The records are clear in the beginning.** -/
theorem Fits.clear (h : c.Fits final) (hs : Loaded final s) : c.Clear s := by
  by_cases hop : c.operation = .set
  · exact (clear_iff_original hop).mpr (hs.2 _ h.dotFree_original h.original)
  · have hread := hs.1 _ (h.applied hop)
    rw [Number.literalValue_of_isZero rfl] at hread
    exact (clear_iff_applied hop).mpr hread

/-- The records of an effect are none of what a block of another one may change. -/
theorem records_notMem (hc : c.Fits final) (hapart : c.Apart d) :
    ∀ x ∈ [c.applied, c.original], x ∉ ["hands", d.applied, d.original] := by
  have hform : ∀ x ∈ c.forms, x ∉ ["hands", d.applied, d.original] := by
    intro x hx hmem
    rw [List.mem_cons, List.mem_cons, List.mem_singleton] at hmem
    rcases hmem with rfl | rfl | rfl
    · exact hc.ne_hands hx rfl
    · exact hapart _ hx d.applied_mem_forms
    · exact hapart _ hx d.original_mem_forms
  intro x hx
  rw [List.mem_cons, List.mem_singleton] at hx
  rcases hx with rfl | rfl
  · exact hform _ c.applied_mem_forms
  · exact hform _ c.original_mem_forms

end HeldChange

/-! ### One event -/

section Events

variable (hdraws : host.DrawsFinite) (hfits : ∀ c ∈ changes, c.Fits final)
  (hapart : changes.Pairwise HeldChange.Apart) {i j : ℕ} {c d : HeldChange}

include hapart in
/-- Effects at different positions are apart. -/
theorem apart_of_ne (hi : changes[i]? = some c) (hj : changes[j]? = some d) (hne : i ≠ j) :
    c.Apart d := by
  obtain ⟨hilt, rfl⟩ := List.getElem?_eq_some_iff.mp hi
  obtain ⟨hjlt, rfl⟩ := List.getElem?_eq_some_iff.mp hj
  rw [List.pairwise_iff_getElem] at hapart
  rcases Nat.lt_or_gt_of_ne hne with hlt | hgt
  · exact hapart i j hilt hjlt hlt
  · exact fun form hform hmem => hapart j i hjlt hilt hgt form hmem hform

include hfits hapart in
/-- A block of one effect leaves the records of the others alone. -/
theorem LeavesOthers.records (hi : changes[i]? = some c) (hj : changes[j]? = some d)
    (hne : i ≠ j) (h : d.LeavesOthers s t) :
    ∀ x ∈ [c.applied, c.original], t.read (storedPath x) = s.read (storedPath x) := by
  intro x hx
  have hfit := hfits c (List.mem_of_getElem? hi)
  refine h x ?_ (HeldChange.records_notMem hfit (apart_of_ne hapart hi hj hne) x hx)
  rw [List.mem_cons, List.mem_singleton] at hx
  rcases hx with rfl | rfl
  · exact hfit.dotFree_applied
  · exact hfit.dotFree_original

theorem run_gained (hi : changes[i]? = some c) (s : State W) :
    (HeldEvent.gained i).run host (changes.map (·.blocks)) s = c.blocks.onGain host s := by
  rw [HeldEvent.run, List.getElem?_map, hi]
  rfl

theorem run_lost (hi : changes[i]? = some c) (s : State W) :
    (HeldEvent.lost i).run host (changes.map (·.blocks)) s = c.blocks.onLoss host s := by
  rw [HeldEvent.run, List.getElem?_map, hi]
  rfl

/-- The record of a change that was applied is there. -/
theorem Playable.exists_applied (h : Playable final changes s) (hfit : c.Fits final)
    (hop : c.operation ≠ .set) : ∃ r, s.Shows (storedPath c.applied) r :=
  h.stored _ ⟨List.mem_map_of_mem (hfit.applied hop), hfit.dotFree_applied⟩

variable (host) in
include hfits in
/-- A loss never fails. -/
theorem exists_run_lost (hc : c ∈ changes) (h : Playable final changes s) :
    ∃ t, c.blocks.onLoss host s = some t ∧ Playable final changes t ∧ c.LeavesOthers s t ∧
      c.Clear t := by
  have hfit := hfits c hc
  by_cases hop : c.operation = .set
  · rcases h.snapshots c hc with hnil | ⟨q₀, hq₀⟩
    · exact ⟨s, HeldChange.onLoss_set_of_nil hop hnil, h, fun _ _ _ => rfl,
        (HeldChange.clear_iff_original hop).mpr hnil⟩
    · obtain ⟨t, hrun, hplay, hothers, -, hnil⟩ :=
        HeldChange.exists_onLoss_set host hfits hc h hop hq₀
      exact ⟨t, hrun, hplay, hothers, (HeldChange.clear_iff_original hop).mpr hnil⟩
  · obtain ⟨q, hq⟩ := h.hands
    obtain ⟨r, hr⟩ := h.exists_applied hfit hop
    obtain ⟨t, hrun, hplay, hlost⟩ :=
      HeldChange.exists_onLoss host hfits hc h hop hq hr
    exact ⟨t, hrun, hplay, hlost.others, (HeldChange.clear_iff_applied hop).mpr hlost.applied⟩

include hfits in
/-- **A loss of an effect that is not held** changes nothing. -/
theorem onLoss_of_clear (hc : c ∈ changes) (h : Playable final changes s) (hclear : c.Clear s) :
    c.blocks.onLoss host s = some s := by
  by_cases hop : c.operation = .set
  · exact HeldChange.onLoss_set_of_nil hop ((HeldChange.clear_iff_original hop).mp hclear)
  · obtain ⟨q, hq⟩ := h.hands
    obtain ⟨t, hrun, -, hlost⟩ := HeldChange.exists_onLoss host hfits hc h hop hq
      ((HeldChange.clear_iff_applied hop).mp hclear)
    rw [hrun, hlost.unchanged c.operation.signed_zero]

include hdraws hfits hapart in
/-- **One event** never fails, and changes no records but those of the effect that it is
about. -/
theorem exists_run {e : HeldEvent W} (he : e.Allowed final changes)
    (h : Playable final changes s) :
    ∃ t, e.run host (changes.map (·.blocks)) s = some t ∧ Playable final changes t ∧
      ∀ i c, changes[i]? = some c → e.turn? i = none →
        ∀ x ∈ [c.applied, c.original], t.read (storedPath x) = s.read (storedPath x) := by
  cases e with
  | gained j =>
      have hj : changes[j]? = some changes[j] := List.getElem?_eq_getElem he
      obtain ⟨q, hq⟩ := h.hands
      obtain ⟨v, w, t, -, hrun, hplay, hgained⟩ :=
        HeldChange.exists_onGain hfits (List.getElem_mem he) h hdraws hq
      refine ⟨t, (run_gained hj s).trans hrun, hplay, fun i c hi hturn => ?_⟩
      refine LeavesOthers.records hfits hapart hi hj ?_ hgained.others
      rintro rfl
      simp [HeldEvent.turn?] at hturn
  | lost j =>
      have hj : changes[j]? = some changes[j] := List.getElem?_eq_getElem he
      obtain ⟨t, hrun, hplay, hothers, -⟩ :=
        exists_run_lost host hfits (List.getElem_mem he) h
      refine ⟨t, (run_lost hj s).trans hrun, hplay, fun i c hi hturn => ?_⟩
      refine LeavesOthers.records hfits hapart hi hj ?_ hothers
      rintro rfl
      simp [HeldEvent.turn?] at hturn
  | outside d change =>
      obtain ⟨hplay, -, hrecords⟩ := he s h
      exact ⟨change s, rfl, hplay, fun i c hi _ => hrecords c (List.mem_of_getElem? hi)⟩

include hdraws hfits hapart in
/-- **A run** never fails, and changes no records but those of the effects that it is
about. -/
theorem exists_runAll {events : List (HeldEvent W)}
    (hevents : ∀ e ∈ events, e.Allowed final changes) (h : Playable final changes s) :
    ∃ t, HeldEvent.runAll host (changes.map (·.blocks)) events s = some t ∧
      Playable final changes t ∧
      ∀ i c, changes[i]? = some c → HeldEvent.turns i events = [] →
        ∀ x ∈ [c.applied, c.original], t.read (storedPath x) = s.read (storedPath x) := by
  induction events generalizing s with
  | nil => exact ⟨s, rfl, h, fun _ _ _ _ _ _ => rfl⟩
  | cons e events ih =>
      obtain ⟨t, hrun, hplay, hsame⟩ :=
        exists_run hdraws hfits hapart (hevents e List.mem_cons_self) h
      obtain ⟨u, hruns, hplays, hsames⟩ :=
        ih (fun e' he' => hevents e' (List.mem_cons_of_mem e he')) hplay
      refine ⟨u, ?_, hplays, fun i c hi hturns x hx => ?_⟩
      · rw [HeldEvent.runAll_cons, hrun, Option.bind_some]
        exact hruns
      · rw [HeldEvent.turns, List.filterMap_cons] at hturns
        split at hturns
        · rename_i hturn
          exact (hsames i c hi hturns x hx).trans (hsame i c hi hturn x hx)
        · cases hturns

/-! ### The balance -/

/-- The **balance**: `a` tells for each effect how it has changed the number of hands, as its
record counts, and without these changes the number of hands is `base`. -/
structure Balanced (changes : List HeldChange) (base : ℚ) (a : ℕ → ℚ) (s : State W) : Prop where
  hands : s.Shows HandChange.roundHands (base + ∑ i ∈ Finset.range changes.length, a i)
  applied : ∀ (i : ℕ) (c : HeldChange), changes[i]? = some c →
    s.Shows (storedPath c.applied) (c.operation.signed (a i))

/-- The sum after the change of one effect is another one. -/
theorem sum_update {n : ℕ} (a : ℕ → ℚ) (hi : i < n) (x : ℚ) :
    ∑ j ∈ Finset.range n, Function.update a i x j = ∑ j ∈ Finset.range n, a j - a i + x := by
  have hmem : i ∈ Finset.range n := Finset.mem_range.mpr hi
  rw [Finset.sum_update_of_mem hmem, Finset.sum_eq_add_sum_sdiff_singleton_of_mem hmem a]
  ring

namespace Balanced

variable {base : ℚ} {a : ℕ → ℚ}

include hfits hapart in
/-- A block of one effect changes the balance at its position. -/
theorem update (hb : Balanced changes base a s) (hi : changes[i]? = some c)
    (hothers : c.LeavesOthers s t) {x q : ℚ} (hq : t.Shows HandChange.roundHands q)
    (hsum : q = base + ∑ j ∈ Finset.range changes.length, a j - a i + x)
    (happlied : t.Shows (storedPath c.applied) (c.operation.signed x)) :
    Balanced changes base (Function.update a i x) t := by
  have hlt : i < changes.length := (List.getElem?_eq_some_iff.mp hi).1
  constructor
  case hands =>
    rw [sum_update a hlt x]
    rw [hsum] at hq
    have heq : base + ∑ j ∈ Finset.range changes.length, a j - a i + x =
        base + (∑ j ∈ Finset.range changes.length, a j - a i + x) := by ring
    rw [← heq]
    exact hq
  case applied =>
    intro j d hj
    by_cases hji : j = i
    · subst hji
      obtain rfl : c = d := Option.some.inj (hi.symm.trans hj)
      rw [Function.update_self]
      exact happlied
    · rw [Function.update_of_ne hji]
      exact (LeavesOthers.records hfits hapart hj hi hji hothers _ List.mem_cons_self).trans
        (hb.applied j d hj)

include hdraws hfits hapart in
/-- A gain of an effect that is not held. -/
theorem gained (hb : Balanced changes base a s) (hi : changes[i]? = some c)
    (hop : c.operation ≠ .set) (hzero : a i = 0) (h : Playable final changes s) :
    ∃ x t, (HeldEvent.gained i).run host (changes.map (·.blocks)) s = some t ∧
      Playable final changes t ∧ Balanced changes base (Function.update a i x) t := by
  let q := base + ∑ j ∈ Finset.range changes.length, a j
  obtain ⟨v, w, t, -, hrun, hplay, hgained⟩ :=
    HeldChange.exists_onGain hfits (List.mem_of_getElem? hi) h hdraws (q := q) hb.hands
  refine ⟨c.operation.gained q v - q, t, (run_gained hi s).trans hrun, hplay, ?_⟩
  refine hb.update hfits hapart hi hgained.others hgained.hands ?_ (hgained.applied hop)
  rw [hzero]
  ring

include hfits hapart in
/-- A loss. -/
theorem lost (hb : Balanced changes base a s) (hi : changes[i]? = some c)
    (hop : c.operation ≠ .set) (h : Playable final changes s) :
    ∃ t, (HeldEvent.lost i).run host (changes.map (·.blocks)) s = some t ∧
      Playable final changes t ∧ Balanced changes base (Function.update a i 0) t := by
  obtain ⟨t, hrun, hplay, hlost⟩ := HeldChange.exists_onLoss host hfits
    (List.mem_of_getElem? hi) h hop hb.hands (hb.applied i c hi)
  refine ⟨t, (run_lost hi s).trans hrun, hplay, ?_⟩
  refine hb.update hfits hapart hi hlost.others hlost.hands ?_ ?_
  · rw [HandOperation.signed_signed]
    ring
  · rw [HandOperation.signed_zero]
    exact hlost.applied

/-- Something else happens. -/
theorem outside (hb : Balanced changes base a s) {d : ℚ} {change : State W → State W}
    (he : (HeldEvent.outside d change).Allowed final changes) (h : Playable final changes s) :
    Balanced changes (base + d) a (change s) := by
  obtain ⟨-, hhands, hrecords⟩ := he s h
  constructor
  case hands =>
    have hshows := hhands _ hb.hands
    rw [add_right_comm] at hshows
    exact hshows
  case applied =>
    intro i c hi
    exact (hrecords c (List.mem_of_getElem? hi) _ List.mem_cons_self).trans (hb.applied i c hi)

end Balanced

include hdraws hfits hapart in
/-- **The balance over a run.** Effects that are held may have changed the number of hands; in
the end none is held, so none has. -/
theorem Balanced.runAll (hops : ∀ c ∈ changes, c.operation ≠ .set) {base : ℚ} {a : ℕ → ℚ}
    {events : List (HeldEvent W)} (hevents : ∀ e ∈ events, e.Allowed final changes)
    {held : ℕ → Bool}
    (hturns : ∀ i < changes.length, Settles (held i) (HeldEvent.turns i events))
    (hheld : ∀ i < changes.length, held i = false → a i = 0)
    (h : Playable final changes s) (hb : Balanced changes base a s) :
    ∃ t a', HeldEvent.runAll host (changes.map (·.blocks)) events s = some t ∧
      Balanced changes (base + (events.map HeldEvent.added).sum) a' t ∧
      ∀ i < changes.length, a' i = 0 := by
  induction events generalizing s base a held with
  | nil =>
      refine ⟨s, a, rfl, ?_, fun i hi => hheld i hi (hturns i hi)⟩
      rw [List.map_nil, List.sum_nil, add_zero]
      exact hb
  | cons e events ih =>
      have hrest : ∀ e' ∈ events, e'.Allowed final changes :=
        fun e' he' => hevents e' (List.mem_cons_of_mem e he')
      have he := hevents e List.mem_cons_self
      have hstep : ∀ {u : State W}, e.run host (changes.map (·.blocks)) s = some u →
          HeldEvent.runAll host (changes.map (·.blocks)) (e :: events) s =
            HeldEvent.runAll host (changes.map (·.blocks)) events u := by
        intro u hu
        rw [HeldEvent.runAll_cons, hu, Option.bind_some]
      rw [List.map_cons, List.sum_cons, ← add_assoc]
      cases e with
      | gained j =>
          obtain ⟨hfree, hnext⟩ := settles_of_turn (fun _ => rfl) he hturns
          have hj : changes[j]? = some changes[j] := List.getElem?_eq_getElem he
          obtain ⟨x, t, hrun, hplay, hbt⟩ := hb.gained hdraws hfits hapart hj
            (hops _ (List.getElem_mem he)) (hheld j he (hfree rfl)) h
          rw [HeldEvent.added, add_zero, hstep hrun]
          refine ih hrest hnext (fun i hi hi' => ?_) hplay hbt
          by_cases hij : i = j
          · subst hij
            rw [Function.update_self] at hi'
            cases hi'
          · rw [Function.update_of_ne hij] at hi' ⊢
            exact hheld i hi hi'
      | lost j =>
          obtain ⟨-, hnext⟩ := settles_of_turn (fun _ => rfl) he hturns
          have hj : changes[j]? = some changes[j] := List.getElem?_eq_getElem he
          obtain ⟨t, hrun, hplay, hbt⟩ := hb.lost hfits hapart hj
            (hops _ (List.getElem_mem he)) h
          rw [HeldEvent.added, add_zero, hstep hrun]
          refine ih hrest hnext (fun i hi hi' => ?_) hplay hbt
          by_cases hij : i = j
          · subst hij
            rw [Function.update_self]
          · rw [Function.update_of_ne hij] at hi' ⊢
            exact hheld i hi hi'
      | outside d change =>
          rw [HeldEvent.added, hstep rfl]
          exact ih hrest hturns hheld (he s h).1 (hb.outside he h)

end Events

/-! ### The laws -/

/-- **The laws of held changes**, when the effects at the positions of `changes` have the
blocks at the same positions. -/
structure HeldLaws (host : Host W) (final : Storage) (changes : List HeldChange)
    (blocks : List EffectBlocks) : Prop where
  /-- The records are clear when the variables of the joker are made. -/
  clear : ∀ s : State W, Loaded final s → ∀ c ∈ changes, c.Clear s
  /-- Whatever happens in whatever order, effects that add or subtract and that are all gone
  in the end have no part in the number of hands, and their records are clear again. -/
  inverse : (∀ c ∈ changes, c.operation ≠ .set) →
    ∀ events : List (HeldEvent W), (∀ e ∈ events, e.Allowed final changes) →
    (∀ i < changes.length, Settles false (HeldEvent.turns i events)) →
    ∀ (s : State W) (q : ℚ), Playable final changes s → (∀ c ∈ changes, c.Clear s) →
    s.Shows HandChange.roundHands q →
    ∃ t, HeldEvent.runAll host blocks events s = some t ∧
      t.Shows HandChange.roundHands (q + (events.map HeldEvent.added).sum) ∧
      ∀ c ∈ changes, c.Clear t
  /-- A gain changes the number of hands as the operation says: a subtraction leaves one. -/
  gain : ∀ (i : ℕ) (c : HeldChange), changes[i]? = some c →
    ∀ (s : State W) (q : ℚ), Playable final changes s → s.Shows HandChange.roundHands q →
    ∃ (v : ℚ) (w : W) (t : State W),
      c.resolved.expr.eval host s = some (.number (.finite v), { s with world := w }) ∧
      (HeldEvent.gained i).run host blocks s = some t ∧
      t.Shows HandChange.roundHands (c.operation.gained q v)
  /-- Whatever happens while a number is set, its loss brings back the number seen at its gain. -/
  restore : ∀ (i : ℕ) (c : HeldChange), changes[i]? = some c → c.operation = .set →
    ∀ events : List (HeldEvent W), (∀ e ∈ events, e.Allowed final changes) →
    HeldEvent.turns i events = [] →
    ∀ (s : State W) (q : ℚ), Playable final changes s → s.Shows HandChange.roundHands q →
    ∃ t, HeldEvent.runAll host blocks (.gained i :: (events ++ [.lost i])) s = some t ∧
      t.Shows HandChange.roundHands q ∧ t.read (storedPath c.original) = some .nil
  /-- A loss changes nothing before any gain, … -/
  loss_of_clear : ∀ (i : ℕ) (c : HeldChange), changes[i]? = some c →
    ∀ s : State W, Playable final changes s → c.Clear s →
      (HeldEvent.lost i).run host blocks s = some s
  /-- … and after a loss. -/
  loss_twice : ∀ i < changes.length, ∀ s : State W, Playable final changes s →
    ∃ t, (HeldEvent.lost i).run host blocks s = some t ∧
      (HeldEvent.lost i).run host blocks t = some t

/-- **The laws hold** of effects that fit a storage and are apart from each other. -/
theorem heldLaws (hdraws : host.DrawsFinite) (hfits : ∀ c ∈ changes, c.Fits final)
    (hapart : changes.Pairwise HeldChange.Apart) :
    HeldLaws host final changes (changes.map (·.blocks)) := by
  constructor
  case clear => exact fun s hs c hc => (hfits c hc).clear hs
  case inverse =>
    intro hops events hevents hturns s q h hclear hq
    have hb : Balanced changes q (fun _ => 0) s := by
      constructor
      case hands =>
        rw [Finset.sum_const_zero, add_zero]
        exact hq
      case applied =>
        intro i c hi
        have hc := List.mem_of_getElem? hi
        rw [HandOperation.signed_zero]
        exact (HeldChange.clear_iff_applied (hops c hc)).mp (hclear c hc)
    obtain ⟨t, a, hrun, hbt, ha⟩ := hb.runAll hdraws hfits hapart hops hevents hturns
      (fun _ _ _ => rfl) h
    have hsum : ∑ i ∈ Finset.range changes.length, a i = 0 :=
      Finset.sum_eq_zero fun i hi => ha i (Finset.mem_range.mp hi)
    refine ⟨t, hrun, ?_, fun c hc => ?_⟩
    · have hhands := hbt.hands
      rw [hsum, add_zero] at hhands
      exact hhands
    · obtain ⟨i, hi⟩ := List.mem_iff_getElem?.mp hc
      have hshows := hbt.applied i c hi
      rw [ha i (List.getElem?_eq_some_iff.mp hi).1, HandOperation.signed_zero] at hshows
      exact (HeldChange.clear_iff_applied (hops c hc)).mpr hshows
  case gain =>
    intro i c hi s q h hq
    obtain ⟨v, w, t, heval, hrun, -, hgained⟩ :=
      HeldChange.exists_onGain hfits (List.mem_of_getElem? hi) h hdraws hq
    exact ⟨v, w, t, heval, (run_gained hi s).trans hrun, hgained.hands⟩
  case restore =>
    intro i c hi hop events hevents hturns s q h hq
    have hc := List.mem_of_getElem? hi
    obtain ⟨v, w, t, -, hgain, hplay, hgained⟩ :=
      HeldChange.exists_onGain hfits hc h hdraws hq
    obtain ⟨u, hruns, hplayu, hsame⟩ := exists_runAll hdraws hfits hapart hevents hplay
    have hseen : u.Shows (storedPath c.original) q :=
      (hsame i c hi hturns _ (by simp)).trans (hgained.original hop)
    obtain ⟨z, hlost, -, -, hback, hnil⟩ :=
      HeldChange.exists_onLoss_set host hfits hc hplayu hop hseen
    refine ⟨z, ?_, hback, hnil⟩
    rw [HeldEvent.runAll_cons, run_gained hi, hgain, Option.bind_some, HeldEvent.runAll_append,
      hruns, Option.bind_some, HeldEvent.runAll_cons, run_lost hi, hlost]
    rfl
  case loss_of_clear =>
    intro i c hi s h hclear
    exact (run_lost hi s).trans (onLoss_of_clear hfits (List.mem_of_getElem? hi) h hclear)
  case loss_twice =>
    intro i hi s h
    have hget : changes[i]? = some changes[i] := List.getElem?_eq_getElem hi
    obtain ⟨t, hrun, hplay, -, hclear⟩ := exists_run_lost host hfits (List.getElem_mem hi) h
    refine ⟨t, (run_lost hget s).trans hrun, (run_lost hget t).trans ?_⟩
    exact onLoss_of_clear hfits (List.getElem_mem hi) hplay hclear

end JokerScript
