import JokerScript.Proofs.Creation.Evaluation

/-!
# Slots and Interleaved Events

A block may run while events of earlier blocks are still pending. As long as every pending creation
has its reservation then, the jokers and the pending creations together stay within the limit. But
an event drops the reservations of all pending creations with its own, and a block that runs after
it counts none of them: with two free slots, three jokers can be created.

## Main definitions

* `Interleaved` — runs of blocks and of events in any order.
* `EventQueue.AllReserved` — every pending creation has its reservation.

## Main results

* `Interleaved.count_le_limit` — the limit holds while blocks run with all reservations in place.
* `exists_interleaved_overfull` — without that, the limit can be passed.
-/

namespace JokerScript

open Lua

variable {W : Type} {host : Host W} {queue : EventQueue W} {IsCard : Value → Prop}
  {s t u : State W} {x : JokerSlots} {guard : State W → Prop}

/-- **Runs in any order** of blocks that look for a slot, and of the events that are pending, from
the state `s` on. A block runs where `guard` holds. -/
inductive Interleaved (host : Host W) (queue : EventQueue W) (guard : State W → Prop)
    (s : State W) : State W → Prop where
  | refl : Interleaved host queue guard s s
  | block {t u : State W} {turn : CreationTurn} {outcome : CreationOutcome}
      (h : Interleaved host queue guard s t) (hguard : guard t) (hturn : turn.Valid)
      (hchecks : turn.checks = true) (hrun : turn.run host queue t = some (outcome, u)) :
      Interleaved host queue guard s u
  | event {t u : State W} (h : Interleaved host queue guard s t)
      (hrun : queue.runFirst host t = some u) : Interleaved host queue guard s u

/-- **Every pending creation has its reservation**: as many slots are reserved as events are
pending. -/
def EventQueue.AllReserved (queue : EventQueue W) (s : State W) : Prop :=
  s.reserved? = some (.number (.finite (queue.pending s.world).length))

/-- **The jokers and the pending creations stay within the limit.** -/
structure EventQueue.Within (queue : EventQueue W) (s : State W) (x : JokerSlots) : Prop where
  slots : s.HasSlots x
  le : x.count + (queue.pending s.world).length ≤ x.limit
  creations : ∀ f ∈ queue.pending s.world,
    ∃ params : JokerCreation, params.skipsSlotCheck = false ∧ params.IsCreation f

/-- The run of the first event, which creates a joker whose slot was looked for. -/
theorem EventQueue.exists_runFirst_of_checks (laws : SlotLaws host queue IsCard)
    {params : JokerCreation} {f : Value} {fs : List Value} (hskips : params.skipsSlotCheck = false)
    (hf : params.IsCreation f) (hpending : queue.pending s.world = f :: fs) (h : s.HasSlots x) :
    ∃ t, queue.runFirst host s = some t ∧ queue.pending t.world = fs ∧
      t.HasSlots ⟨x.count + 1, 0, x.limit⟩ := by
  have hslots : State.HasSlots { s with world := queue.dropFirst s.world } x :=
    h.congr rfl rfl rfl
  obtain ⟨t, limit, hrun, hleaves, hlimit⟩ := JokerCreation.run_isCreation laws hf hslots
  have hedition : params.edition ≠ some negativeEdition := by
    intro hnegative
    simp [JokerCreation.skipsSlotCheck, hnegative] at hskips
  have hfinal := hleaves.slots
  rw [hskips, hlimit hedition] at hfinal
  exact ⟨t, runFirst_of_run hpending hrun, pending_of_leaves hpending hleaves, hfinal⟩

/-- The run of a block that looks for a slot. -/
theorem CreationTurn.exists_run_of_checks (laws : SlotLaws host queue IsCard) {turn : CreationTurn}
    (hturn : turn.Valid) (hchecks : turn.checks = true) (h : s.HasSlots x) :
    ∃ outcome t n, turn.run host queue s = some (outcome, t) ∧
      t.HasSlots { x with reserved := x.reserved + n } ∧
      queue.pending t.world = queue.pending s.world ++ outcome.scheduled ∧
      (∀ f ∈ outcome.scheduled, turn.params.IsCreation f) ∧ outcome.scheduled.length = n ∧
      n = if x.count + x.reserved < x.limit then 1 else 0 := by
  obtain ⟨outcome, t, hrun, -, hslots, hpending, hcreations, hlength⟩ := exists_run laws hturn h
  have hskips : turn.params.skipsSlotCheck = false := by simpa [checks] using hchecks
  have hadmits : x.admits turn.params = decide (x.count + x.reserved < x.limit) := by
    rw [JokerSlots.admits, hskips, Bool.false_or]
  have hattempted : x.attempted turn.params =
      { x with reserved := x.reserved + outcome.scheduled.length } := by
    rw [JokerSlots.attempted, hlength, hskips]
    cases x.admits turn.params <;> rfl
  refine ⟨outcome, t, _, hrun, hattempted ▸ hslots, hpending, hcreations, rfl, ?_⟩
  rw [hlength, hadmits]
  simp only [decide_eq_true_eq]

namespace Interleaved

/-! ### Reservations in place -/

/-- A block that runs with all reservations in place keeps within the limit. -/
theorem within_block (laws : SlotLaws host queue IsCard) {turn : CreationTurn}
    {outcome : CreationOutcome} (h : queue.Within s x) (hreserved : queue.AllReserved s)
    (hturn : turn.Valid) (hchecks : turn.checks = true)
    (hrun : turn.run host queue s = some (outcome, t)) :
    ∃ y, queue.Within t y ∧ y.limit = x.limit := by
  obtain ⟨outcome', t', n, hrun', hslots, hpending, hcreations, hlength, hn⟩ :=
    turn.exists_run_of_checks laws hturn hchecks h.slots
  obtain ⟨rfl, rfl⟩ := Prod.mk.inj (Option.some.inj (hrun'.symm.trans hrun))
  have hcount : x.reserved = (queue.pending s.world).length := by
    have hsame := Option.some.inj (h.slots.reserved?_eq.symm.trans hreserved)
    exact Nat.cast_injective (ExactNumber.finite.inj (Value.number.inj hsame))
  have hle := h.le
  refine ⟨_, ⟨hslots, ?_, ?_⟩, rfl⟩
  · rw [hpending, List.length_append, hlength, hn]
    simp only
    split_ifs <;> omega
  · intro f hf
    rw [hpending] at hf
    rcases List.mem_append.mp hf with hf | hf
    · exact h.creations f hf
    · exact ⟨turn.params, by simpa [CreationTurn.checks] using hchecks, hcreations f hf⟩

/-- An event turns a pending creation into a joker. -/
theorem within_event (laws : SlotLaws host queue IsCard) (h : queue.Within s x)
    (hrun : queue.runFirst host s = some t) : ∃ y, queue.Within t y ∧ y.limit = x.limit := by
  cases hpending : queue.pending s.world with
  | nil =>
      rw [EventQueue.runFirst, hpending] at hrun
      cases hrun
  | cons f fs =>
      obtain ⟨params, hskips, hf⟩ := h.creations f (hpending ▸ List.mem_cons_self)
      obtain ⟨t', hrun', hpending', hslots⟩ :=
        queue.exists_runFirst_of_checks laws hskips hf hpending h.slots
      obtain rfl := Option.some.inj (hrun'.symm.trans hrun)
      have hle := h.le
      rw [hpending, List.length_cons] at hle
      refine ⟨_, ⟨hslots, ?_, fun g hg => h.creations g ?_⟩, rfl⟩
      · rw [hpending']
        simp only
        omega
      · rw [hpending]
        exact List.mem_cons_of_mem f (hpending' ▸ hg)

/-- **The limit holds as long as blocks run with all reservations in place.** -/
theorem count_le_limit (laws : SlotLaws host queue IsCard) {count limit : ℕ}
    (hs : s.HasSlots ⟨count, 0, limit⟩) (hle : count ≤ limit)
    (hpending : queue.pending s.world = [])
    (h : Interleaved host queue queue.AllReserved s t) :
    ∃ x, t.HasSlots x ∧ x.limit = limit ∧ x.count ≤ limit := by
  obtain ⟨x, hwithin, hlimit⟩ : ∃ x, queue.Within t x ∧ x.limit = limit := by
    induction h with
    | refl => exact ⟨_, ⟨hs, by simpa [hpending] using hle, by simp [hpending]⟩, rfl⟩
    | block _ hguard hturn hchecks hrun ih =>
        obtain ⟨x, hwithin, hlimit⟩ := ih
        obtain ⟨y, hwithin', hlimit'⟩ := within_block laws hwithin hguard hturn hchecks hrun
        exact ⟨y, hwithin', hlimit'.trans hlimit⟩
    | event _ hrun ih =>
        obtain ⟨x, hwithin, hlimit⟩ := ih
        obtain ⟨y, hwithin', hlimit'⟩ := within_event laws hwithin hrun
        exact ⟨y, hwithin', hlimit'.trans hlimit⟩
  have := hwithin.le
  exact ⟨x, hwithin.slots, hlimit, by omega⟩

/-! ### Reservations dropped -/

/-- Where a slot is free, the block of a plain creation reserves it and schedules an event. -/
theorem exists_block (laws : SlotLaws host queue IsCard) (h : Interleaved host queue guard s t)
    (hguard : guard t) (ht : t.HasSlots x) (hroom : x.count + x.reserved < x.limit) :
    ∃ u f, Interleaved host queue guard s u ∧ u.HasSlots { x with reserved := x.reserved + 1 } ∧
      queue.pending u.world = queue.pending t.world ++ [f] ∧ JokerCreation.IsCreation {} f := by
  have hvalid := CreationTurn.scoring_valid {}
  obtain ⟨outcome, u, n, hrun, hslots, hpending, hcreations, hlength, hn⟩ :=
    CreationTurn.exists_run_of_checks laws hvalid rfl ht
  rw [if_pos hroom] at hn
  rw [hn] at hslots hlength
  obtain ⟨f, hscheduled⟩ := List.length_eq_one_iff.mp hlength
  rw [hscheduled] at hpending
  exact ⟨u, f, h.block hguard hvalid rfl hrun, hslots, hpending,
    hcreations f (hscheduled ▸ List.mem_cons_self)⟩

/-- The event of a plain creation drops all reservations. -/
theorem exists_event (laws : SlotLaws host queue IsCard) (h : Interleaved host queue guard s t)
    (ht : t.HasSlots x) {f : Value} {fs : List Value} (hpending : queue.pending t.world = f :: fs)
    (hf : JokerCreation.IsCreation {} f) :
    ∃ u, Interleaved host queue guard s u ∧ u.HasSlots ⟨x.count + 1, 0, x.limit⟩ ∧
      queue.pending u.world = fs := by
  obtain ⟨u, hrun, hpending', hslots⟩ := queue.exists_runFirst_of_checks laws rfl hf hpending ht
  exact ⟨u, h.event hrun, hslots, hpending'⟩

/-- A joker is created for the only slot, with its reservation in place. -/
theorem count_le_limit_jokerless : ∃ t,
    Interleaved tableHost tableQueue tableQueue.AllReserved (jokerless 1) t ∧
      t.HasSlots ⟨1, 0, 1⟩ ∧ ∃ x, t.HasSlots x ∧ x.limit = 1 ∧ x.count ≤ 1 := by
  have hslots := jokerless_hasSlots 1
  have hstart : Interleaved tableHost tableQueue tableQueue.AllReserved (jokerless 1)
      (jokerless 1) := .refl
  obtain ⟨t, f, h, ht, hpending, hf⟩ := exists_block tableHost_slotLaws hstart
    hslots.reserved?_eq hslots (by decide)
  obtain ⟨u, h, hu, -⟩ := exists_event tableHost_slotLaws h ht hpending hf
  exact ⟨u, h, hu, count_le_limit tableHost_slotLaws hslots (by omega) rfl h⟩

/-- **Dropped reservations let the limit be passed.** With two free slots, two blocks reserve them.
The event of the first drops both reservations, and so a third block finds room beside the joker
that is there, although another one is still to come. -/
theorem exists_overfull (laws : SlotLaws host queue IsCard) {count : ℕ}
    (hs : s.HasSlots ⟨count, 0, count + 2⟩) (hpending : queue.pending s.world = []) :
    ∃ t, Interleaved host queue (fun _ => True) s t ∧ t.HasSlots ⟨count + 3, 0, count + 2⟩ := by
  have hstart : Interleaved host queue (fun _ => True) s s := .refl
  obtain ⟨s₁, first, h₁, hs₁, hpending₁, hfirst⟩ :=
    exists_block laws hstart trivial hs (by simp)
  obtain ⟨s₂, second, h₂, hs₂, hpending₂, hsecond⟩ :=
    exists_block laws h₁ trivial hs₁ (by simp)
  rw [hpending₁, hpending] at hpending₂
  obtain ⟨s₃, h₃, hs₃, hpending₃⟩ := exists_event laws h₂ hs₂ hpending₂ hfirst
  obtain ⟨s₄, third, h₄, hs₄, hpending₄, hthird⟩ :=
    exists_block laws h₃ trivial hs₃ (by simp)
  rw [hpending₃] at hpending₄
  obtain ⟨s₅, h₅, hs₅, hpending₅⟩ := exists_event laws h₄ hs₄ hpending₄ hsecond
  obtain ⟨s₆, h₆, hs₆, -⟩ := exists_event laws h₅ hs₅ hpending₅ hthird
  exact ⟨s₆, h₆, hs₆⟩

end Interleaved

/-- The limit is two, no slot is reserved and no event is pending: three jokers can come of it. -/
theorem exists_interleaved_overfull : SlotLaws tableHost tableQueue (fun _ => True) ∧
    (jokerless 2).HasSlots ⟨0, 0, 2⟩ ∧ tableQueue.pending (jokerless 2).world = [] ∧
      ∃ t, Interleaved tableHost tableQueue (fun _ => True) (jokerless 2) t ∧
        t.HasSlots ⟨3, 0, 2⟩ ∧ ¬∃ x, t.HasSlots x ∧ x.limit = 2 ∧ x.count ≤ 2 := by
  obtain ⟨t, hruns, hslots⟩ :=
    Interleaved.exists_overfull tableHost_slotLaws (jokerless_hasSlots 2) rfl
  refine ⟨tableHost_slotLaws, jokerless_hasSlots 2, rfl, t, hruns, hslots, ?_⟩
  rintro ⟨x, hx, -, hle⟩
  obtain rfl := hx.unique hslots
  exact absurd hle (by decide)

end JokerScript
