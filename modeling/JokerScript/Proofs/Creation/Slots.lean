import JokerScript.Code.Effect.JokerCreation
import JokerScript.Proofs.Lua.Calls

/-!
# Slots for Jokers

The game has a limit for jokers. It counts the jokers that there are, and beside them a number of
reserved slots, for jokers that pending events will create. What generated code reads and writes
of this stands in a few tables below `G`. What the game itself does to them when one of its
functions is called is told by laws: each call changes the slots in one known way, or not at all.

## Main definitions

* `JokerSlots`, `Lua.State.HasSlots` — jokers, reserved slots and the limit, in a state.
* `EventQueue`, `EventQueue.Leaves` — the functions that the game runs later, and what a run
  leaves behind of them.
* `SlotLaws` — a game that creates one joker when it is asked for one.

## Main results

* `Lua.State.HasSlots.read_reserved`, `Lua.State.HasSlots.write_reserved` — the reserved slots.
* `Lua.State.HasSlots.unique` — a state has its slots in one way only.
-/

namespace JokerScript

open Lua

variable {W : Type} {s t u : State W} {x y : JokerSlots}

/-! ### Slots in a state -/

/-- What the game says about **the slots for jokers**. -/
structure JokerSlots where
  /-- How many jokers there are. -/
  count : ℕ
  /-- How many slots are reserved for jokers to come. -/
  reserved : ℕ
  /-- How many jokers there may be. -/
  limit : ℕ

/-- What lies between `G` and what the game says about the slots: tables, and the object that
takes events. -/
structure JokerArea where
  root : ℕ
  jokers : ℕ
  cards : ℕ
  config : ℕ
  game : ℕ
  colours : ℕ
  manager : Value

namespace JokerArea

/-- The tables of the area are there, and they say this about the slots. -/
structure Shows (area : JokerArea) (s : State W) (x : JokerSlots) : Prop where
  root : s.globals "G" = .table area.root
  jokers : (s.tables area.root).field "jokers" = .table area.jokers
  cards : (s.tables area.jokers).field "cards" = .table area.cards
  count : (s.tables area.cards).items.length = x.count
  config : (s.tables area.jokers).field "config" = .table area.config
  limit : (s.tables area.config).field "card_limit" = .number (.finite x.limit)
  game : (s.tables area.root).field "GAME" = .table area.game
  reserved : (s.tables area.game).field "joker_buffer" = .number (.finite x.reserved)
  colours : (s.tables area.root).field "C" = .table area.colours
  manager : (s.tables area.root).field "E_MANAGER" = area.manager
  old : ∀ a ∈ [area.root, area.jokers, area.cards, area.config, area.game], a < s.fresh

variable {area : JokerArea}

/-- Growth leaves the slots alone. -/
theorem Shows.grows (h : area.Shows s x) (hst : s.Grows t) : area.Shows t x := by
  have htables : ∀ a ∈ [area.root, area.jokers, area.cards, area.config, area.game],
      t.tables a = s.tables a := fun a ha => hst.tables a (h.old a ha)
  simp only [List.forall_mem_cons] at htables
  obtain ⟨hroot, hjokers, hcards, hconfig, hgame, -⟩ := htables
  exact
    { root := hst.globals ▸ h.root
      jokers := hroot ▸ h.jokers
      cards := hjokers ▸ h.cards
      count := hcards ▸ h.count
      config := hjokers ▸ h.config
      limit := hconfig ▸ h.limit
      game := hroot ▸ h.game
      reserved := hgame ▸ h.reserved
      colours := hroot ▸ h.colours
      manager := hroot ▸ h.manager
      old := fun a ha => (h.old a ha).trans_le hst.fresh }

/-- An assignment to the number of reserved slots. -/
theorem Shows.setReserved (h : area.Shows s x) (n : ℕ) :
    area.Shows (s.setField area.game "joker_buffer" (.number (.finite n)))
      { x with reserved := n } where
  root := h.root
  jokers := by simp [State.field_setField, h.jokers]
  cards := by simp [State.field_setField, h.cards]
  count := by rw [State.items_setField, h.count]
  config := by simp [State.field_setField, h.config]
  limit := by simp [State.field_setField, h.limit]
  game := by simp [State.field_setField, h.game]
  reserved := by simp [State.field_setField]
  colours := by simp [State.field_setField, h.colours]
  manager := by simp [State.field_setField, h.manager]
  old := h.old

/-- Other jokers than before. -/
theorem Shows.setItems (h : area.Shows s x) (items : List Value) :
    area.Shows (s.setItems area.cards items) { x with count := items.length } := by
  have hfield : ∀ a, ((s.setItems area.cards items).tables a).field = (s.tables a).field := by
    intro a
    by_cases ha : a = area.cards
    · subst ha
      simp [State.setItems]
    · simp [State.setItems, ha]
  exact
    { root := h.root
      jokers := by rw [hfield, h.jokers]
      cards := by rw [hfield, h.cards]
      count := by simp [State.setItems]
      config := by rw [hfield, h.config]
      limit := by rw [hfield, h.limit]
      game := by rw [hfield, h.game]
      reserved := by rw [hfield, h.reserved]
      colours := by rw [hfield, h.colours]
      manager := by rw [hfield, h.manager]
      old := h.old }

/-- One joker more. -/
theorem Shows.addItem (h : area.Shows s x) (v : Value) :
    area.Shows (s.setItems area.cards ((s.tables area.cards).items ++ [v]))
      { x with count := x.count + 1 } := by
  rw [← h.count]
  simpa using h.setItems ((s.tables area.cards).items ++ [v])

theorem Shows.withLocals (h : area.Shows s x) (locals : List (String × Value)) :
    area.Shows (s.withLocals locals) x :=
  ⟨h.root, h.jokers, h.cards, h.count, h.config, h.limit, h.game, h.reserved, h.colours,
    h.manager, h.old⟩

theorem Shows.read_cards (h : area.Shows s x) (hG : s.locals.lookup "G" = none) :
    s.read "G.jokers.cards" = some (.table area.cards) := by
  have hroot : pathRoot "G.jokers.cards" = "G" := by decide
  have hfields : pathFields "G.jokers.cards" = ["jokers", "cards"] := by decide
  simp [State.read, hroot, hfields, State.root, hG, h.root, State.fieldOf, h.jokers, h.cards]

theorem Shows.read_manager (h : area.Shows s x) (hG : s.locals.lookup "G" = none) :
    s.read "G.E_MANAGER" = some area.manager := by
  have hroot : pathRoot "G.E_MANAGER" = "G" := by decide
  have hfields : pathFields "G.E_MANAGER" = ["E_MANAGER"] := by decide
  simp [State.read, hroot, hfields, State.root, hG, h.root, State.fieldOf, h.manager]

end JokerArea

namespace Lua.State

/-- **The state has these slots for jokers.** Its local variables do not matter. -/
def HasSlots (s : State W) (x : JokerSlots) : Prop := ∃ area : JokerArea, area.Shows s x

namespace HasSlots

/-- Only the global variables and the tables matter. -/
theorem congr (h : s.HasSlots x) (hglobals : t.globals = s.globals) (htables : t.tables = s.tables)
    (hfresh : t.fresh = s.fresh) : t.HasSlots x := by
  obtain ⟨area, h⟩ := h
  exact ⟨area, hglobals ▸ h.root, htables ▸ h.jokers, htables ▸ h.cards, htables ▸ h.count,
    htables ▸ h.config, htables ▸ h.limit, htables ▸ h.game, htables ▸ h.reserved,
    htables ▸ h.colours, htables ▸ h.manager, hfresh ▸ h.old⟩

theorem withLocals (h : s.HasSlots x) (locals : List (String × Value)) :
    (s.withLocals locals).HasSlots x := h.congr rfl rfl rfl

theorem push (h : s.HasSlots x) (name : String) (v : Value) : (s.push name v).HasSlots x :=
  h.congr rfl rfl rfl

theorem grows (h : s.HasSlots x) (hst : s.Grows t) : t.HasSlots x :=
  h.imp fun _ harea => harea.grows hst

/-- **A state has its slots in one way only.** -/
theorem unique (h : s.HasSlots x) (h' : s.HasSlots y) : x = y := by
  obtain ⟨area, h⟩ := h
  obtain ⟨area', h'⟩ := h'
  have hroot : area.root = area'.root := Value.table.inj (h.root.symm.trans h'.root)
  have hjokers : area.jokers = area'.jokers :=
    Value.table.inj (h.jokers.symm.trans (hroot ▸ h'.jokers))
  have hcards : area.cards = area'.cards :=
    Value.table.inj (h.cards.symm.trans (hjokers ▸ h'.cards))
  have hconfig : area.config = area'.config :=
    Value.table.inj (h.config.symm.trans (hjokers ▸ h'.config))
  have hgame : area.game = area'.game := Value.table.inj (h.game.symm.trans (hroot ▸ h'.game))
  have hcount : x.count = y.count := h.count.symm.trans (hcards ▸ h'.count)
  have hreserved : (x.reserved : ℚ) = y.reserved :=
    ExactNumber.finite.inj (Value.number.inj (h.reserved.symm.trans (hgame ▸ h'.reserved)))
  have hlimit : (x.limit : ℚ) = y.limit :=
    ExactNumber.finite.inj (Value.number.inj (h.limit.symm.trans (hconfig ▸ h'.limit)))
  obtain ⟨count, reserved, limit⟩ := x
  obtain rfl : count = y.count := hcount
  obtain rfl : reserved = y.reserved := Nat.cast_injective hreserved
  obtain rfl : limit = y.limit := Nat.cast_injective hlimit
  rfl

/-! ### Reading slots -/

section Read

variable (h : s.HasSlots x) (hG : s.locals.lookup "G" = none)

include h hG

theorem read_cards :
    ∃ a, s.read "G.jokers.cards" = some (.table a) ∧ (s.tables a).items.length = x.count := by
  obtain ⟨area, h⟩ := h
  exact ⟨area.cards, h.read_cards hG, h.count⟩

theorem read_limit : s.read "G.jokers.config.card_limit" = some (.number (.finite x.limit)) := by
  obtain ⟨area, h⟩ := h
  have hroot : pathRoot "G.jokers.config.card_limit" = "G" := by decide
  have hfields : pathFields "G.jokers.config.card_limit" = ["jokers", "config", "card_limit"] := by
    decide
  simp [State.read, hroot, hfields, State.root, hG, h.root, State.fieldOf, h.jokers, h.config,
    h.limit]

theorem read_reserved :
    s.read JokerCreation.jokerBuffer = some (.number (.finite x.reserved)) := by
  obtain ⟨area, h⟩ := h
  have hroot : pathRoot JokerCreation.jokerBuffer = "G" := by decide
  have hfields : pathFields JokerCreation.jokerBuffer = ["GAME", "joker_buffer"] := by decide
  simp [State.read, hroot, hfields, State.root, hG, h.root, State.fieldOf, h.game, h.reserved]

theorem read_colours : ∃ a, s.read "G.C" = some (.table a) := by
  obtain ⟨area, h⟩ := h
  have hroot : pathRoot "G.C" = "G" := by decide
  have hfields : pathFields "G.C" = ["C"] := by decide
  refine ⟨area.colours, ?_⟩
  simp [State.read, hroot, hfields, State.root, hG, h.root, State.fieldOf, h.colours]

/-- Only the number of reserved slots changes with an assignment to it. -/
theorem write_reserved (n : ℕ) : ∃ t, s.write JokerCreation.jokerBuffer (.number (.finite n)) =
      some t ∧ t.HasSlots { x with reserved := n } ∧ t.locals = s.locals ∧ t.world = s.world := by
  obtain ⟨area, h⟩ := h
  have hroot : pathRoot JokerCreation.jokerBuffer = "G" := by decide
  have hfields : pathFields JokerCreation.jokerBuffer = ["GAME", "joker_buffer"] := by decide
  refine ⟨s.setField area.game "joker_buffer" (.number (.finite n)), ?_, ⟨area, h.setReserved n⟩,
    rfl, rfl⟩
  simp [State.write, hroot, hfields, State.root, hG, h.root, State.fieldOf, h.game]

end Read

end HasSlots

end Lua.State

/-! ### Events -/

/-- **The queue of events**: functions that the game runs later, first come first served. -/
structure EventQueue (W : Type) where
  /-- The functions that are still to be run, in order. -/
  pending : W → List Value
  /-- What the game keeps after it has taken the first function from the queue. -/
  dropFirst : W → W
  pending_dropFirst : ∀ w, pending (dropFirst w) = (pending w).tail

namespace EventQueue

variable {queue : EventQueue W} {fs gs : List Value}

/-- **What a run leaves behind**: the slots `x`, the events `fs` after those that were pending, and
the local variables as they were. -/
structure Leaves (queue : EventQueue W) (s t : State W) (x : JokerSlots) (fs : List Value) :
    Prop where
  slots : t.HasSlots x
  locals : t.locals = s.locals
  pending : queue.pending t.world = queue.pending s.world ++ fs

theorem Leaves.refl (queue : EventQueue W) (h : s.HasSlots x) : queue.Leaves s s x [] :=
  ⟨h, rfl, (List.append_nil _).symm⟩

theorem Leaves.trans (h : queue.Leaves s t x fs) (h' : queue.Leaves t u y gs) :
    queue.Leaves s u y (fs ++ gs) :=
  ⟨h'.slots, h'.locals.trans h.locals, by rw [h'.pending, h.pending, List.append_assoc]⟩

/-- A new table leaves the slots alone. -/
theorem leaves_alloc (queue : EventQueue W) (h : s.HasSlots x) (table : Table) :
    queue.Leaves s (s.alloc table).2 x [] :=
  ⟨h.grows (s.grows_alloc table), rfl, (List.append_nil _).symm⟩

end EventQueue

/-! ### Laws of the game -/

/-- **A game that keeps to its slots.** Asked for a joker, it adds exactly one. An edition may
change the limit, if it is the one that brings a slot of its own. An event is a table that holds
its function, and stands in the queue once it is added. Other calls of generated code leave the
slots and the queue alone. -/
structure SlotLaws (host : Host W) (queue : EventQueue W) (IsCard : Value → Prop) : Prop where
  addCard {s : State W} {x : JokerSlots} (h : s.HasSlots x) (spec : ℕ) :
    ∃ card t, host.call "SMODS.add_card" [.table spec] s = some (card, t) ∧
      (card.truthy = true → IsCard card) ∧ queue.Leaves s t { x with count := x.count + 1 } []
  setEdition {s : State W} {x : JokerSlots} {card : Value} (h : s.HasSlots x) (hcard : IsCard card)
    (edition : String) :
    ∃ v t limit, host.method card "set_edition" [.str edition, .bool true] s = some (v, t) ∧
      queue.Leaves s t { x with limit } [] ∧ (edition ≠ negativeEdition → limit = x.limit)
  addSticker {s : State W} {x : JokerSlots} {card : Value} (h : s.HasSlots x) (hcard : IsCard card)
    (sticker : String) :
    ∃ v t, host.method card "add_sticker" [.str sticker, .bool true] s = some (v, t) ∧
      queue.Leaves s t x []
  event {s : State W} {a : ℕ} {f : Value} (h : (s.tables a).field "func" = f) :
    ∃ e t, host.call "Event" [.table a] s = some (.table e, t) ∧ s.Grows t ∧
      (t.tables e).field "func" = f ∧ queue.pending t.world = queue.pending s.world
  addEvent {s : State W} {x : JokerSlots} {area : JokerArea} {e : ℕ} {f : Value}
    (h : area.Shows s x) (hevent : (s.tables e).field "func" = f) :
    ∃ v t, host.method area.manager "add_event" [.table e] s = some (v, t) ∧
      queue.Leaves s t x [f]
  localize {s : State W} {x : JokerSlots} (h : s.HasSlots x) (key : String) :
    ∃ v t, host.call "localize" [.str key] s = some (v, t) ∧ queue.Leaves s t x []
  statusText {s : State W} {x : JokerSlots} (h : s.HasSlots x) (args : List Value) :
    ∃ v t, host.call "card_eval_status_text" args s = some (v, t) ∧ queue.Leaves s t x []

/-! ### Visible variables -/

/-- The local variables **hide nothing** that the code of a creation needs, and there is a context
among them. -/
structure CreationLocals (locals : List (String × Value)) : Prop where
  hidden : ∀ name ∈ ["G", "SMODS", "Event", "localize", "card_eval_status_text"],
    locals.lookup name = none
  context : ∃ a, locals.lookup "context" = some (.table a)

/-- The local variables that the code makes are none of those that it needs. -/
theorem CreationLocals.cons {locals : List (String × Value)} (h : CreationLocals locals)
    {name : String} (hname : name ∉ ["G", "SMODS", "Event", "localize", "card_eval_status_text",
      "context"]) (v : Value) : CreationLocals ((name, v) :: locals) := by
  have hlookup : ∀ n ∈ ["G", "SMODS", "Event", "localize", "card_eval_status_text", "context"],
      ((name, v) :: locals).lookup n = locals.lookup n := by
    intro n hn
    rw [List.lookup_cons, beq_eq_false_iff_ne.mpr fun heq : n = name => hname (heq ▸ hn)]
  refine ⟨fun n hn => ?_, ?_⟩
  · rw [hlookup n (List.mem_append_left ["context"] hn), h.hidden n hn]
  · obtain ⟨a, ha⟩ := h.context
    exact ⟨a, by rw [hlookup "context" (by simp), ha]⟩

end JokerScript
