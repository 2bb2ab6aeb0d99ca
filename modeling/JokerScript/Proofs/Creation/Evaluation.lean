import JokerScript.Proofs.Creation.Blocks

/-!
# Slots in One Evaluation

In one evaluation all blocks run first, and the events that they scheduled run after them. The
blocks that look for a slot get one while there are any: the reserved slots count just the
creations that they scheduled. So the jokers and the reservations together never pass the limit,
and with the last event the reservations are gone.

## Main definitions

* `CreationTurn.run`, `CreationTurn.runAll` — runs of blocks, and what is seen of them.
* `EventQueue.runFirst`, `EventQueue.runAll` — runs of events.
* `CreationOutcome.Spec` — what is to be seen of the run of a block.

## Main results

* `CreationTurn.exists_runAll_spec` — the blocks of one evaluation, followed by their events.
-/

namespace JokerScript

open Lua

variable {W : Type} {host : Host W} {queue : EventQueue W} {IsCard : Value → Prop}
  {s t u : State W} {x y : JokerSlots} {params : JokerCreation} {f : Value} {fs : List Value}

/-! ### Runs of events -/

/-- The function creates one joker. It keeps the reservations, or drops all of them. -/
def CreatesOne (host : Host W) (queue : EventQueue W) (keeps : Bool) (f : Value) : Prop :=
  ∀ (s : State W) (x : JokerSlots), s.HasSlots x → ∃ t limit,
    f.run host [] s = some (.bool true, t) ∧
      queue.Leaves s t ⟨x.count + 1, if keeps then x.reserved else 0, limit⟩ []

theorem JokerCreation.IsCreation.createsOne (laws : SlotLaws host queue IsCard)
    (hf : params.IsCreation f) : CreatesOne host queue params.skipsSlotCheck f := by
  intro s x h
  obtain ⟨t, limit, hrun, hleaves, -⟩ := run_isCreation laws hf h
  exact ⟨t, limit, hrun, hleaves⟩

namespace EventQueue

/-- The run of the first event. An event is done when its function returns `true`. -/
def runFirst (queue : EventQueue W) (host : Host W) (s : State W) : Option (State W) :=
  match queue.pending s.world with
  | [] => none
  | f :: _ =>
    match f.run host [] { s with world := queue.dropFirst s.world } with
    | some (.bool true, t) => some t
    | _ => none

/-- The runs of the first `n` events, in order. -/
def runAll (queue : EventQueue W) (host : Host W) : ℕ → State W → Option (State W)
  | 0, s => some s
  | n + 1, s => (queue.runFirst host s).bind (queue.runAll host n)

theorem runFirst_of_run (hpending : queue.pending s.world = f :: fs)
    (hrun : f.run host [] { s with world := queue.dropFirst s.world } = some (.bool true, t)) :
    queue.runFirst host s = some t := by
  simp only [runFirst, hpending, hrun]

/-- The events that are pending when the first one has left the queue. -/
theorem pending_of_leaves (hpending : queue.pending s.world = f :: fs)
    (h : queue.Leaves { s with world := queue.dropFirst s.world } t x []) :
    queue.pending t.world = fs := by
  rw [h.pending, queue.pending_dropFirst, hpending, List.tail_cons, List.append_nil]

/-- The run of the first event, when it creates a joker. -/
theorem exists_runFirst {keeps : Bool} (hf : CreatesOne host queue keeps f)
    (hpending : queue.pending s.world = f :: fs) (h : s.HasSlots x) :
    ∃ t limit, queue.runFirst host s = some t ∧ queue.pending t.world = fs ∧
      t.HasSlots ⟨x.count + 1, if keeps then x.reserved else 0, limit⟩ := by
  have hslots : State.HasSlots { s with world := queue.dropFirst s.world } x :=
    h.congr rfl rfl rfl
  obtain ⟨t, limit, hrun, hleaves⟩ := hf _ x hslots
  exact ⟨t, limit, runFirst_of_run hpending hrun, pending_of_leaves hpending hleaves,
    hleaves.slots⟩

/-- **All events run**, and each creates one joker. No reservations are left if there were none, or
if one of the events drops them. -/
theorem exists_runAll (hfs : ∀ f ∈ fs, ∃ keeps, CreatesOne host queue keeps f)
    (hpending : queue.pending s.world = fs) (h : s.HasSlots x)
    (hdrops : x.reserved = 0 ∨ ∃ f ∈ fs, CreatesOne host queue false f) :
    ∃ t limit, queue.runAll host fs.length s = some t ∧ queue.pending t.world = [] ∧
      t.HasSlots ⟨x.count + fs.length, 0, limit⟩ := by
  induction fs generalizing s x with
  | nil =>
      have hzero : x.reserved = 0 := hdrops.resolve_right (by simp)
      exact ⟨s, x.limit, rfl, hpending, hzero ▸ h⟩
  | cons f fs ih =>
      rw [List.forall_mem_cons] at hfs
      obtain ⟨keeps, hf, hkeeps⟩ : ∃ keeps, CreatesOne host queue keeps f ∧
          (keeps = true → x.reserved = 0 ∨ ∃ g ∈ fs, CreatesOne host queue false g) := by
        by_cases hfalse : CreatesOne host queue false f
        · exact ⟨false, hfalse, nofun⟩
        · obtain ⟨keeps, hf⟩ := hfs.1
          refine ⟨keeps, hf, fun _ => hdrops.imp_right ?_⟩
          rintro ⟨g, hg, hdrop⟩
          rcases List.mem_cons.mp hg with rfl | hg
          · exact absurd hdrop hfalse
          · exact ⟨g, hg, hdrop⟩
      obtain ⟨t, limit, hfirst, hpending', hslots⟩ := exists_runFirst hf hpending h
      obtain ⟨u, limit', hrest, hempty, hslots'⟩ := ih hfs.2 hpending' hslots (by
        cases keeps with
        | false => exact .inl rfl
        | true => exact hkeeps rfl)
      refine ⟨u, limit', ?_, hempty, ?_⟩
      · rw [List.length_cons, runAll, hfirst, Option.bind_some, hrest]
      · have hcount : x.count + 1 + fs.length = x.count + (f :: fs).length := by
          rw [List.length_cons]
          omega
        exact hcount ▸ hslots'

end EventQueue

/-! ### Runs of blocks -/

/-- **The run of a block** that is compiled for a creation, where some local variables are
visible. -/
structure CreationTurn where
  params : JokerCreation
  block : Block
  locals : List (String × Value)

/-- **What is seen of the run of a block**: the variable that tells whether a joker is created, the
events that the block scheduled, and the number of reserved slots before and after. -/
structure CreationOutcome where
  created : Value
  scheduled : List Value
  reservedBefore : Option Value
  reservedAfter : Option Value

/-- The number of reserved slots, as the game keeps it. -/
def Lua.State.reserved? (s : State W) : Option Value :=
  (s.withLocals []).read JokerCreation.jokerBuffer

theorem Lua.State.HasSlots.reserved?_eq (h : s.HasSlots x) :
    s.reserved? = some (.number (.finite x.reserved)) :=
  (h.withLocals []).read_reserved rfl

namespace CreationTurn

/-- The block is compiled for the creation, and the local variables hide nothing from it. -/
structure Valid (turn : CreationTurn) : Prop where
  compiled : turn.params.CompilesTo turn.block
  locals : CreationLocals turn.locals

/-- Does the block look for a slot? -/
def checks (turn : CreationTurn) : Bool := !turn.params.skipsSlotCheck

/-- The run of the block, and what is seen of it. -/
def run (host : Host W) (queue : EventQueue W) (turn : CreationTurn) (s : State W) :
    Option (CreationOutcome × State W) :=
  match execBlock host turn.block (s.withLocals turn.locals) with
  | some (.next, t) => (t.read JokerCreation.created).map fun created =>
    ({ created
       scheduled := (queue.pending t.world).drop (queue.pending s.world).length
       reservedBefore := s.reserved?
       reservedAfter := t.reserved? }, t)
  | _ => none

/-- The runs of blocks one after another, before any event. -/
def runAll (host : Host W) (queue : EventQueue W) :
    List CreationTurn → State W → Option (List CreationOutcome × State W)
  | [], s => some ([], s)
  | turn :: turns, s => do
    let (outcome, s) ← turn.run host queue s
    let (outcomes, s) ← runAll host queue turns s
    return (outcome :: outcomes, s)

end CreationTurn

/-- **What is to be seen of the run of a block.** The variable tells whether there is a creation,
and there is at most one. A block that does not look for a slot always creates a joker; it leaves
the reserved slots alone, and so does its event. -/
structure CreationOutcome.Spec (host : Host W) (queue : EventQueue W) (params : JokerCreation)
    (outcome : CreationOutcome) : Prop where
  created : outcome.created = .bool (!outcome.scheduled.isEmpty)
  length_le : outcome.scheduled.length ≤ 1
  creations : ∀ f ∈ outcome.scheduled, CreatesOne host queue params.skipsSlotCheck f
  skips : params.skipsSlotCheck = true →
    outcome.scheduled ≠ [] ∧ outcome.reservedAfter = outcome.reservedBefore

namespace CreationTurn

variable {turn : CreationTurn} {turns : List CreationTurn}

/-- **The run of a block**, seen and unseen. -/
theorem exists_run (laws : SlotLaws host queue IsCard) (hturn : turn.Valid) (h : s.HasSlots x) :
    ∃ outcome t, turn.run host queue s = some (outcome, t) ∧
      outcome.Spec host queue turn.params ∧ t.HasSlots (x.attempted turn.params) ∧
      queue.pending t.world = queue.pending s.world ++ outcome.scheduled ∧
      (∀ f ∈ outcome.scheduled, turn.params.IsCreation f) ∧
      outcome.scheduled.length = if x.admits turn.params then 1 else 0 := by
  obtain ⟨t, fs, hrun, hattempted⟩ :=
    JokerCreation.exec_compiled laws hturn.compiled (h.withLocals turn.locals) hturn.locals
  have hpending : queue.pending t.world = queue.pending s.world ++ fs := hattempted.pending
  have hempty := hattempted.isEmpty_eq
  refine ⟨⟨.bool (x.admits turn.params), fs, s.reserved?, t.reserved?⟩, t, ?_,
    { created := by rw [hempty, Bool.not_not]
      length_le := by
        rw [hattempted.length]
        split <;> omega
      creations := fun f hf => (hattempted.creations f hf).createsOne laws
      skips := fun hskips => ⟨?_, ?_⟩ },
    hattempted.slots, hpending, hattempted.creations, hattempted.length⟩
  · simp only [run, hrun, hattempted.read_created, hpending, List.drop_left, Option.map_some]
  · rintro rfl
    rw [JokerSlots.admits, hskips, Bool.true_or] at hempty
    cases hempty
  · have hsame : x.attempted turn.params = x := by
      rw [JokerSlots.attempted, hskips]
      rfl
    rw [hattempted.slots.reserved?_eq, hsame, h.reserved?_eq]

/-- How many creations of blocks that look for a slot were scheduled. -/
def scheduledChecked (turns : List CreationTurn) (outcomes : List CreationOutcome) : ℕ :=
  (((turns.zip outcomes).filter fun p => p.1.checks).map fun p => p.2.scheduled.length).sum

theorem scheduledChecked_cons (turn : CreationTurn) (turns : List CreationTurn)
    (outcome : CreationOutcome) (outcomes : List CreationOutcome) :
    scheduledChecked (turn :: turns) (outcome :: outcomes) =
      (if turn.checks then outcome.scheduled.length else 0) + scheduledChecked turns outcomes := by
  rw [scheduledChecked, scheduledChecked, List.zip_cons_cons, List.filter_cons]
  split
  · rw [List.map_cons, List.sum_cons]
  · rw [Nat.zero_add]

/-- **The blocks of one evaluation.** While there are free slots, each block that looks for one gets
it; the reserved slots count what these blocks scheduled. -/
theorem exists_runAll (laws : SlotLaws host queue IsCard) (hturns : ∀ turn ∈ turns, turn.Valid)
    (h : s.HasSlots x) (hle : x.count + x.reserved ≤ x.limit) :
    ∃ outcomes t, runAll host queue turns s = some (outcomes, t) ∧
      List.Forall₂ (fun turn outcome => outcome.Spec host queue turn.params) turns outcomes ∧
      t.HasSlots { x with reserved := x.reserved + scheduledChecked turns outcomes } ∧
      queue.pending t.world = queue.pending s.world ++ outcomes.flatMap CreationOutcome.scheduled ∧
      scheduledChecked turns outcomes =
        min (turns.countP checks) (x.limit - (x.count + x.reserved)) := by
  induction turns generalizing s x with
  | nil =>
      refine ⟨[], s, rfl, .nil, h, (List.append_nil _).symm, ?_⟩
      rw [List.countP_nil, Nat.zero_min]
      rfl
  | cons turn turns ih =>
      rw [List.forall_mem_cons] at hturns
      obtain ⟨outcome, t, hrun, hspec, hslots, hpending, -, hlength⟩ :=
        exists_run laws hturns.1 h
      -- What the first block reserves: one slot if it looks for one and there is one.
      obtain ⟨n, hn⟩ : ∃ n, n = if turn.checks then outcome.scheduled.length else 0 := ⟨_, rfl⟩
      have hvalue : n =
          if turn.checks then if x.count + x.reserved < x.limit then 1 else 0 else 0 := by
        rw [hn, hlength]
        cases hchecks : turn.checks with
        | false => rfl
        | true =>
            have hskips : turn.params.skipsSlotCheck = false := by simpa [checks] using hchecks
            simp [JokerSlots.admits, hskips]
      have hattempted : x.attempted turn.params = { x with reserved := x.reserved + n } := by
        rw [JokerSlots.attempted, hn, hlength, checks]
        cases turn.params.skipsSlotCheck <;> cases x.admits turn.params <;> rfl
      rw [hattempted] at hslots
      have hle' : x.count + (x.reserved + n) ≤ x.limit := by
        rw [hvalue]
        split_ifs <;> omega
      obtain ⟨outcomes, u, hrest, hspecs, hslots', hpending', htotal⟩ :=
        ih hturns.2 hslots hle'
      refine ⟨outcome :: outcomes, u, ?_, .cons hspec hspecs, ?_, ?_, ?_⟩
      · simp [runAll, hrun, hrest]
      · rw [scheduledChecked_cons, ← hn, ← Nat.add_assoc]
        exact hslots'
      · rw [hpending', hpending, List.flatMap_cons, List.append_assoc]
      · rw [scheduledChecked_cons, ← hn, htotal, List.countP_cons, hvalue]
        simp only
        split_ifs <;> omega

section Specs

variable {outcomes : List CreationOutcome}
  (hspecs : List.Forall₂ (fun turn outcome => outcome.Spec host queue turn.params) turns outcomes)

include hspecs

theorem createsOne_of_mem_scheduled :
    ∀ f ∈ outcomes.flatMap CreationOutcome.scheduled, ∃ keeps, CreatesOne host queue keeps f := by
  induction hspecs with
  | nil => exact List.forall_mem_nil _
  | cons hspec _ ih =>
      intro f hf
      rcases List.mem_append.mp hf with hf | hf
      · exact ⟨_, hspec.creations f hf⟩
      · exact ih f hf

/-- Reservations were made by blocks whose events drop them. -/
theorem scheduledChecked_eq_zero_or : scheduledChecked turns outcomes = 0 ∨
    ∃ f ∈ outcomes.flatMap CreationOutcome.scheduled, CreatesOne host queue false f := by
  induction hspecs with
  | nil => exact .inl rfl
  | @cons turn outcome turns outcomes hspec _ ih =>
      have hrest := ih.imp_right fun ⟨f, hf, hdrops⟩ =>
        (⟨f, List.mem_append_right outcome.scheduled hf, hdrops⟩ :
          ∃ f ∈ (outcome :: outcomes).flatMap CreationOutcome.scheduled,
            CreatesOne host queue false f)
      rw [scheduledChecked_cons]
      cases hchecks : turn.checks with
      | false => simpa using hrest
      | true =>
          have hskips : turn.params.skipsSlotCheck = false := by simpa [checks] using hchecks
          cases hscheduled : outcome.scheduled with
          | nil => simpa [hscheduled] using hrest
          | cons f fs =>
              have hf : f ∈ outcome.scheduled := hscheduled ▸ List.mem_cons_self
              exact .inr ⟨f, List.mem_append_left _ hf, hskips ▸ hspec.creations f hf⟩

end Specs

/-- **The slots in one evaluation.** From a state without reservations and without pending events,
blocks that are compiled for creations run, and after them all events that they scheduled. As many
blocks that look for a slot get one as there are free slots; each joker whose creation was
scheduled is created, and at the end no slot is reserved. -/
theorem exists_runAll_spec (laws : SlotLaws host queue IsCard)
    (hturns : ∀ turn ∈ turns, turn.Valid) {count limit : ℕ} (h : s.HasSlots ⟨count, 0, limit⟩)
    (hle : count ≤ limit) (hpending : queue.pending s.world = []) :
    ∃ outcomes t u limit', runAll host queue turns s = some (outcomes, t) ∧
      queue.runAll host (queue.pending t.world).length t = some u ∧
      List.Forall₂ (fun turn outcome => outcome.Spec host queue turn.params) turns outcomes ∧
      scheduledChecked turns outcomes = min (turns.countP checks) (limit - count) ∧
      queue.pending u.world = [] ∧
      u.HasSlots ⟨count + (outcomes.map fun o => o.scheduled.length).sum, 0, limit'⟩ := by
  obtain ⟨outcomes, t, hrun, hspecs, hslots, hscheduled, htotal⟩ :=
    exists_runAll laws hturns h (by simpa using hle)
  rw [hpending, List.nil_append] at hscheduled
  obtain ⟨u, limit', hevents, hempty, hfinal⟩ := queue.exists_runAll
    (createsOne_of_mem_scheduled hspecs) hscheduled hslots (by
      rw [Nat.zero_add]
      exact scheduledChecked_eq_zero_or hspecs)
  rw [List.length_flatMap] at hevents hfinal
  refine ⟨outcomes, t, u, limit', hrun, ?_, hspecs, by simpa using htotal, hempty, hfinal⟩
  rw [hscheduled, List.length_flatMap, hevents]

end CreationTurn

/-! ### A game with tables alone -/

/-- A game that keeps a queue of events beside its tables, and nothing else. -/
def tableHost : Host (List Value) where
  call name args s :=
    match name, args with
    | "SMODS.add_card", _ =>
      match (s.withLocals []).read "G.jokers.cards" with
      | some (.table a) => some (.bool true, s.setItems a ((s.tables a).items ++ [.bool true]))
      | _ => none
    | "Event", [.table a] => some (.table a, s)
    | "localize", _ | "card_eval_status_text", _ => some (.nil, s)
    | _, _ => none
  method _ name args s :=
    match name, args with
    | "add_event", [.table e] =>
      some (.nil, { s with world := s.world ++ [(s.tables e).field "func"] })
    | "set_edition", _ | "add_sticker", _ => some (.nil, s)
    | _, _ => none

/-- Its queue of events. -/
def tableQueue : EventQueue (List Value) where
  pending := id
  dropFirst := List.tail
  pending_dropFirst _ := rfl

/-- The game keeps to its slots. -/
theorem tableHost_slotLaws : SlotLaws tableHost tableQueue fun _ => True where
  addCard {s x} h spec := by
    obtain ⟨area, h⟩ := h
    have hread := (h.withLocals []).read_cards rfl
    have hslots := h.addItem (.bool true)
    exact ⟨.bool true, _, by simp [tableHost, hread], fun _ => trivial, ⟨area, hslots⟩, rfl,
      (List.append_nil _).symm⟩
  setEdition h _ _ := ⟨.nil, _, _, rfl, .refl tableQueue h, fun _ => rfl⟩
  addSticker h _ _ := ⟨.nil, _, rfl, .refl tableQueue h⟩
  event {s a _} h := ⟨a, s, rfl, .refl s, h, rfl⟩
  addEvent {s x area e f} h hevent :=
    ⟨.nil, _, rfl, ⟨State.HasSlots.congr ⟨area, h⟩ rfl rfl rfl, rfl, by rw [← hevent]; rfl⟩⟩
  localize h _ := ⟨.nil, _, rfl, .refl tableQueue h⟩
  statusText h _ := ⟨.nil, _, rfl, .refl tableQueue h⟩

/-- A table with the given fields. -/
def recordTable (fields : List (String × Value)) : Table where
  field name := (fields.lookup name).getD .nil

/-- A state without jokers. -/
def jokerless (limit : ℕ) : State (List Value) where
  globals := fun _ => .table 0
  tables
    | 0 => recordTable [("jokers", .table 1), ("GAME", .table 4), ("C", .table 5)]
    | 1 => recordTable [("cards", .table 2), ("config", .table 3)]
    | 3 => recordTable [("card_limit", .number (.finite limit))]
    | 4 => recordTable [("joker_buffer", .number (.finite 0))]
    | _ => {}
  fresh := 6
  world := []

theorem jokerless_hasSlots (limit : ℕ) : (jokerless limit).HasSlots ⟨0, 0, limit⟩ :=
  ⟨⟨0, 1, 2, 3, 4, 5, .nil⟩,
    { root := rfl
      jokers := rfl
      cards := rfl
      count := rfl
      config := rfl
      limit := rfl
      game := rfl
      reserved := congrArg (fun q => Value.number (.finite q)) Nat.cast_zero.symm
      colours := rfl
      manager := rfl
      old := by simp [jokerless] }⟩

/-- The local variables of a callback. -/
def callbackLocals : List (String × Value) := [("context", .table 5), ("card", .nil)]

theorem callbackLocals_creationLocals : CreationLocals callbackLocals :=
  ⟨by decide, 5, rfl⟩

namespace CreationTurn

/-- The run of a block inside scoring. -/
def scoring (params : JokerCreation) : CreationTurn :=
  ⟨params, params.attempt {}, callbackLocals⟩

theorem scoring_valid (params : JokerCreation) : (scoring params).Valid :=
  ⟨params.compilesTo_attempt {}, callbackLocals_creationLocals⟩

/-- The run of a block outside scoring, with the usual message. -/
def announced (params : JokerCreation) : CreationTurn :=
  ⟨params, params.attempt {} ++ [.ifThen (.path JokerCreation.created) [statusText
    (Effect.messageOr ⟨⟨""⟩, .createJoker params, none⟩ JokerCreation.plusJoker) .blue]],
    callbackLocals⟩

theorem announced_valid (params : JokerCreation) : (announced params).Valid :=
  ⟨params.compilesTo_announced {} none, callbackLocals_creationLocals⟩

/-- Two blocks that look for a slot, and one between them that does not. -/
def rivals : List CreationTurn :=
  [.scoring { edition := some "e_foil", sticker := some "eternal" },
    .announced { ignoreSlots := true }, .scoring { selection := .specific "j_joker" }]

/-- Of the two blocks that look for the only slot, one gets it. -/
theorem exists_runAll_spec_rivals : ∃ outcomes t u limit,
    runAll tableHost tableQueue rivals (jokerless 1) = some (outcomes, t) ∧
      tableQueue.runAll tableHost t.world.length t = some u ∧
      scheduledChecked rivals outcomes = 1 ∧ u.world = [] ∧
      u.HasSlots ⟨0 + (outcomes.map fun o => o.scheduled.length).sum, 0, limit⟩ := by
  have hvalid : ∀ turn ∈ rivals, turn.Valid := by
    simp only [rivals, List.forall_mem_cons]
    exact ⟨scoring_valid _, announced_valid _, scoring_valid _, List.forall_mem_nil _⟩
  obtain ⟨outcomes, t, u, limit, hrun, hevents, -, htotal, hempty, hslots⟩ :=
    exists_runAll_spec tableHost_slotLaws hvalid (jokerless_hasSlots 1) (by omega) rfl
  exact ⟨outcomes, t, u, limit, hrun, hevents, htotal, hempty, hslots⟩

end CreationTurn

end JokerScript
