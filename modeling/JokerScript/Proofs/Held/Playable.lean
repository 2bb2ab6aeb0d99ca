import JokerScript.Proofs.Held.Slots

/-!
# States That Held Changes Run In

The blocks of a held change read the number of hands, the variables of the joker and the
state of the game, and write the number of hands and the records of their own slot. A state
is **playable** if all of that is there. Playable states are closed under what the blocks
do: drawing a random number, making a local variable, and writing.

Two tables of the game may be one: no law needs that they differ. What a block writes
is told apart from what other blocks read by the names of the fields.

## Main definitions

* `Playable` — the states.
* `Wrote` — the outcome of an assignment.

## Main results

* `Playable.withWorld`, `Playable.push`, `Playable.exists_wrote` — closure.
-/

namespace JokerScript

open Lua

variable {W : Type} {final : Storage} {changes : List HeldChange} {s t : State W}

/-! ### Playable states -/

/-- The path of a variable of the joker. -/
def storedPath (name : String) : String := "card.ability.extra" ++ "." ++ name

/-- Does the state show a finite number at the path? -/
def Lua.State.Shows (s : State W) (p : String) (q : ℚ) : Prop :=
  s.read p = some (.number (.finite q))

/-- A **playable** state: the number of hands, the variables of the joker and the readings of
the game are finite numbers. A number seen before is one, too, or is not there. No local
variable hides a function that the blocks call. -/
structure Playable (final : Storage) (changes : List HeldChange) (s : State W) : Prop where
  hands : ∃ q, s.Shows HandChange.roundHands q
  storage : ∃ a, s.read "card.ability.extra" = some (.table a)
  stored : ∀ name, final.CanRead name → ∃ q, s.Shows (storedPath name) q
  snapshots : ∀ c ∈ changes,
    s.read (storedPath c.original) = some .nil ∨ ∃ q, s.Shows (storedPath c.original) q
  game : ∃ game : String → ℚ, ∀ p ∈ GameState.readings, p.2.ShowsIn s (.finite (game p.1))
  visible : ∀ name ∈ ["pseudorandom", "math"], s.locals.lookup name = none

theorem storedPath_eq (name : String) : storedPath name = "card.ability.extra." ++ name := by
  have hlead : "card.ability.extra" ++ "." = "card.ability.extra." := rfl
  exact congrArg (fun lead => lead ++ name) hlead

theorem extra_eq_path (name : String) : Expr.extra name = .path (storedPath name) := by
  rw [Expr.extra, storedPath_eq]

theorem pathRoot_storedPath (name : String) : pathRoot (storedPath name) = "card" := by
  have hroot : pathRoot "card.ability.extra" = "card" := by decide +kernel
  exact (pathRoot_append "card.ability.extra" _).trans hroot

/-! ### Local variables -/

/-- The names that a local variable must not hide. -/
def reservedRoots : List String := ["G", "card", "pseudorandom", "math"]

theorem read_push_of_reserved {p x : String} (hp : pathRoot p ∈ reservedRoots)
    (hx : x ∉ reservedRoots) (v : Value) : (s.push x v).read p = s.read p := by
  refine State.read_push s v ?_
  rintro rfl
  exact hx hp

namespace Playable

/-- What the game keeps beside its tables does not matter. -/
theorem withWorld (h : Playable final changes s) (w : W) :
    Playable final changes { s with world := w } := by
  obtain ⟨game, hgame⟩ := h.game
  refine ⟨h.hands, h.storage, h.stored, h.snapshots, ⟨game, fun p hp => ?_⟩, h.visible⟩
  have hshows := hgame p hp
  cases hreading : p.2 with
  | field path =>
      rw [hreading] at hshows
      exact hshows
  | count path =>
      rw [hreading] at hshows
      exact hshows

/-- A new local variable does not matter, unless it hides what the blocks read. -/
theorem push (h : Playable final changes s) (hchanges : ∀ c ∈ changes, DotFree c.original)
    {x : String} (hx : x ∉ reservedRoots) (v : Value) :
    Playable final changes (s.push x v) := by
  have hstored : ∀ name, DotFree name →
      (s.push x v).read (storedPath name) = s.read (storedPath name) := by
    intro name hname
    refine read_push_of_reserved ?_ hx v
    rw [pathRoot_storedPath]
    decide
  constructor
  case hands =>
    obtain ⟨q, hq⟩ := h.hands
    exact ⟨q, (read_push_of_reserved (by decide) hx v).trans hq⟩
  case storage =>
    obtain ⟨a, ha⟩ := h.storage
    exact ⟨a, (read_push_of_reserved (by decide) hx v).trans ha⟩
  case stored =>
    intro name hname
    obtain ⟨q, hq⟩ := h.stored name hname
    exact ⟨q, (hstored name hname.2).trans hq⟩
  case snapshots =>
    intro c hc
    have hsame := hstored c.original (hchanges c hc)
    rcases h.snapshots c hc with hnil | ⟨q, hq⟩
    · exact Or.inl (hsame.trans hnil)
    · exact Or.inr ⟨q, hsame.trans hq⟩
  case game =>
    obtain ⟨game, hgame⟩ := h.game
    refine ⟨game, fun p hp => (hgame p hp).push ?_ v⟩
    rw [pathRoot_readings p hp]
    rintro rfl
    exact hx (by decide)
  case visible =>
    intro name hname
    rw [State.lookup_push_of_ne s v]
    · exact h.visible name hname
    · rintro rfl
      exact hx (List.mem_cons_of_mem _ (List.mem_cons_of_mem _ hname))

end Playable

/-! ### Assignments -/

/-- The tables that the blocks write to. -/
def writtenTables : List String := ["G.GAME.round_resets", "card.ability.extra"]

/-- The fields that lead to what the blocks read. -/
def sharedFields : List String :=
  ["GAME", "round_resets", "ability", "extra"] ++
    GameState.readings.flatMap fun p => pathFields p.2.path

/-- The outcome of an assignment to a path whose last field is `name`. -/
structure Wrote (path name : String) (v : Value) (s t : State W) : Prop where
  write : s.write path v = some t
  value : t.read path = some v
  hands : name ≠ "hands" → t.read HandChange.roundHands = s.read HandChange.roundHands
  stored : ∀ x, DotFree x → x ≠ name → t.read (storedPath x) = s.read (storedPath x)
  game : ∀ p ∈ GameState.readings, ∀ n, p.2.ShowsIn s n → p.2.ShowsIn t n
  locals : t.locals = s.locals
  globals : t.globals = s.globals
  /-- An assignment of the value that is there changes nothing. -/
  unchanged : s.read path = some v → t = s

theorem pathFields_writtenTables : ∀ p ∈ writtenTables, ∀ x ∈ pathFields p, x ∈ sharedFields := by
  decide +kernel

theorem pathFields_readings :
    ∀ p ∈ GameState.readings, ∀ x ∈ pathFields p.2.path, x ∈ sharedFields := by
  intro p hp x hx
  exact List.mem_append_right _ (List.mem_flatMap.mpr ⟨p, hp, hx⟩)

/-- No field of the number of hands or of a record leads to what the blocks read. -/
theorem notMem_sharedFields {name : String}
    (h : name = "hands" ∨ "hand_change".toList <+: name.toList) : name ∉ sharedFields := by
  intro hmem
  have hall : ∀ x ∈ sharedFields, x ≠ "hands" ∧ ¬ "hand_change".toList <+: x.toList := by
    decide +kernel
  obtain ⟨hhands, hslot⟩ := hall name hmem
  rcases h with rfl | h
  · exact hhands rfl
  · exact hslot h

theorem GameState.Reading.ShowsIn.setField {n : ExactNumber} {reading : GameState.Reading}
    {name : String} (h : reading.ShowsIn s n) (hname : name ∉ pathFields reading.path) (a : ℕ)
    (v : Value) : reading.ShowsIn (s.setField a name v) n := by
  cases reading with
  | field path => exact (s.read_setField a v hname).trans h
  | count path =>
      obtain ⟨b, hread, hn⟩ := h
      refine ⟨b, (s.read_setField a v hname).trans hread, ?_⟩
      rw [State.items_setField]
      exact hn

theorem Wrote.root {p name : String} {v : Value} (h : Wrote p name v s t) (x : String) :
    t.root x = s.root x := by
  rw [State.root, State.root, h.locals, h.globals]

namespace Playable

/-- The written tables are there. -/
theorem table (h : Playable final changes s) {p : String} (hp : p ∈ writtenTables) :
    ∃ a, s.read p = some (.table a) := by
  rcases List.mem_cons.mp hp with rfl | hp
  · obtain ⟨q, hq⟩ := h.hands
    have hchild : s.read ("G.GAME.round_resets" ++ "." ++ "hands") =
        some (.number (.finite q)) := hq
    exact State.read_child_inv (by decide) hchild
  · obtain rfl := List.mem_singleton.mp hp
    exact h.storage

/-- A field of a written table is as before, unless it has the name of the assigned one. -/
theorem read_setField_or (h : Playable final changes s) {name : String}
    (hname : name ∉ sharedFields) (a : ℕ) (v : Value) {p x : String} (hp : p ∈ writtenTables)
    (hx : DotFree x) :
    (s.setField a name v).read (p ++ "." ++ x) = s.read (p ++ "." ++ x) ∨
      x = name ∧ (s.setField a name v).read (p ++ "." ++ x) = some v := by
  obtain ⟨b, hb⟩ := h.table hp
  rw [State.read_child_setField a v hx hb fun hmem =>
    hname (pathFields_writtenTables p hp name hmem), State.read_child hx hb]
  split
  · rename_i heq
    exact Or.inr ⟨heq.2, rfl⟩
  · exact Or.inl rfl

/-- A written finite number does not matter, nor does `nil` where no finite number has to
be. -/
theorem setField (h : Playable final changes s) (hchanges : ∀ c ∈ changes, DotFree c.original)
    {name : String} (hname : name ∉ sharedFields) (a : ℕ) {v : Value}
    (hv : (∃ q, v = .number (.finite q)) ∨ v = .nil ∧ name ≠ "hands" ∧ name ∉ final.names) :
    Playable final changes (s.setField a name v) := by
  have hread : ∀ {p : String}, (∀ x ∈ pathFields p, x ∈ sharedFields) →
      (s.setField a name v).read p = s.read p :=
    fun hp => s.read_setField a v fun hmem => hname (hp name hmem)
  constructor
  case hands =>
    rcases h.read_setField_or hname a v (p := "G.GAME.round_resets") (x := "hands") (by decide)
      (by decide) with hsame | ⟨hx, hnew⟩
    · obtain ⟨q, hq⟩ := h.hands
      exact ⟨q, hsame.trans hq⟩
    · rcases hv with ⟨q, rfl⟩ | ⟨-, hhands, -⟩
      · exact ⟨q, hnew⟩
      · exact absurd hx.symm hhands
  case storage =>
    obtain ⟨b, hb⟩ := h.storage
    exact ⟨b, (hread (pathFields_writtenTables _ (by decide))).trans hb⟩
  case stored =>
    intro x hx
    rcases h.read_setField_or hname a v (p := "card.ability.extra") (by decide) hx.2 with
      hsame | ⟨rfl, hnew⟩
    · obtain ⟨q, hq⟩ := h.stored x hx
      exact ⟨q, hsame.trans hq⟩
    · rcases hv with ⟨q, rfl⟩ | ⟨-, -, hnames⟩
      · exact ⟨q, hnew⟩
      · exact absurd hx.1 hnames
  case snapshots =>
    intro c hc
    rcases h.read_setField_or hname a v (p := "card.ability.extra") (by decide)
      (hchanges c hc) with hsame | ⟨-, hnew⟩
    · rcases h.snapshots c hc with hnil | ⟨q, hq⟩
      · exact Or.inl (hsame.trans hnil)
      · exact Or.inr ⟨q, hsame.trans hq⟩
    · rcases hv with ⟨q, rfl⟩ | ⟨rfl, -, -⟩
      · exact Or.inr ⟨q, hnew⟩
      · exact Or.inl hnew
  case game =>
    obtain ⟨game, hgame⟩ := h.game
    refine ⟨game, fun p hp => (hgame p hp).setField (fun hmem => ?_) a v⟩
    exact hname (pathFields_readings p hp name hmem)
  case visible => exact h.visible

/-- **An assignment** to the number of hands or to a record succeeds, and leaves a playable
state. -/
theorem exists_wrote (h : Playable final changes s) (hchanges : ∀ c ∈ changes, DotFree c.original)
    {path p name : String} (hpath : path = p ++ "." ++ name) (hp : p ∈ writtenTables)
    (hdot : DotFree name) (hname : name ∉ sharedFields) {v : Value}
    (hv : (∃ q, v = .number (.finite q)) ∨ v = .nil ∧ name ≠ "hands" ∧ name ∉ final.names) :
    ∃ t, Wrote path name v s t ∧ Playable final changes t := by
  obtain ⟨a, ha⟩ := h.table hp
  subst hpath
  refine ⟨s.setField a name v, ?_, h.setField hchanges hname a hv⟩
  have hfield : name ∉ pathFields p := fun hmem =>
    hname (pathFields_writtenTables p hp name hmem)
  constructor
  case write => exact State.write_child v hdot ha
  case value =>
    rw [State.read_child_setField a v hdot ha hfield, if_pos ⟨rfl, rfl⟩]
  case hands =>
    intro hne
    rcases h.read_setField_or hname a v (p := "G.GAME.round_resets") (x := "hands") (by decide)
      (by decide) with hsame | ⟨heq, -⟩
    · exact hsame
    · exact absurd heq.symm hne
  case stored =>
    intro x hx hne
    rcases h.read_setField_or hname a v (p := "card.ability.extra") (by decide) hx with
      hsame | ⟨heq, -⟩
    · exact hsame
    · exact absurd heq hne
  case game =>
    intro p hp n hn
    exact hn.setField (fun hmem => hname (pathFields_readings p hp name hmem)) a v
  case locals => rfl
  case globals => rfl
  case unchanged =>
    intro hread
    rw [State.read_child hdot ha] at hread
    rw [← Option.some.inj hread]
    exact s.setField_self a name

end Playable

end JokerScript
