import JokerScript.Proofs.Triggered.Quiet

/-!
# A Game with a Record

A small game keeps the laws of the two shapes of a change. It notes each call that it answers,
counts the numbers that it draws, and changes the hands left in the round. None of its answers
depends on the address of a table.

## Main definitions

* `recordingGame` — the game.
* `recordedStart` — the start of a round in it.

## Main results

* `recordingGame_laws`, `poised_recordedStart` — the game keeps the laws, and its state is poised.
-/

namespace JokerScript

open Lua

/-! ### Notes -/

namespace Lua.Memory

variable {R : Type} {σ : ℕ → ℕ} {w w' : Memory R} {n : ℕ} {c : HostCall} {v : Value}

/-- The memory with another rest, which the renaming of tables does not touch. -/
def withRest (w : Memory R) (f : R → R) : Memory R := { w with rest := f w.rest }

/-- The memory with one more call in its record. -/
def note (w : Memory R) (c : HostCall) : Memory R := { w with record := w.record ++ [c] }

/-- The memory with one more event. -/
def schedule (w : Memory R) (event : Value) : Memory R :=
  { w with events := w.events ++ [event] }

theorem Renames.withRest (h : w.Renames σ w') (f : R → R) :
    (w.withRest f).Renames σ (w'.withRest f) :=
  congrArg (Memory.withRest · f) h

theorem silent_note (w : Memory R) (c : HostCall) :
    (w.note c).silent = if c.isText then w.silent else w.silent.note c := by
  cases hc : c.isText <;> simp [silent, note, hc]

theorem Renames.note (h : w.Renames σ w') (c : HostCall) :
    (w.note c).Renames σ (w'.note (c.rename σ)) := by
  rw [Renames, silent_note, silent_note, HostCall.isText_rename, h]
  split
  · rfl
  · simp [rename, Memory.note]

theorem Within.note (h : w.Within n)
    (hc : ∀ σ : ℕ → ℕ, (∀ a < n, σ a = a) → c.rename σ = c) : (w.note c).Within n := by
  intro σ hσ
  have hnoted : (w.note c).Renames σ (w.note (c.rename σ)) := Renames.note (h σ hσ).symm c
  rw [hc σ hσ] at hnoted
  exact hnoted.symm

theorem Renames.schedule (h : w.Renames σ w') (v : Value) :
    (w.schedule v).Renames σ (w'.schedule (v.rename σ)) := by
  have hevents : ∀ w : Memory R, (w.schedule v).silent = w.silent.schedule v := fun _ => rfl
  have hscheduled : (w'.schedule (v.rename σ)).silent = w'.silent.schedule (v.rename σ) := rfl
  rw [Renames, hscheduled, hevents, h]
  simp [rename, Memory.schedule]

theorem Within.schedule (h : w.Within n) (hv : v.Within n) : (w.schedule v).Within n := by
  intro σ hσ
  have hscheduled : (w.schedule v).Renames σ (w.schedule (v.rename σ)) :=
    Renames.schedule (h σ hσ).symm v
  rw [hv σ hσ] at hscheduled
  exact hscheduled.symm

end Lua.Memory

/-! ### The game -/

/-- How a value is shown. -/
def Lua.Value.shown : Value → String
  | .number n => shownWhole n
  | .str text => text
  | _ => ""

theorem Lua.Value.shown_rename (σ : ℕ → ℕ) (v : Value) : (v.rename σ).shown = v.shown := by
  cases v <;> rfl

/-- The game changes the hands left in the round by a number. -/
def ease? (s : State (Memory ℕ)) : Value → Option (Value × State (Memory ℕ))
  | .number n =>
    match s.read HandChange.handsLeft with
    | some (.number l) => (s.write HandChange.handsLeft (.number (l.add n))).map (.nil, ·)
    | _ => none
  | _ => none

/-- What the game answers. It draws the lower bound of a range, and an event is the table that
describes it. -/
def answer? (name : String) (args : List Value) (s : State (Memory ℕ)) :
    Option (Value × State (Memory ℕ)) :=
  match name, args with
  | "pseudorandom", [_, min, _] =>
    some (min, { s with world := s.world.withRest (· + 1) })
  | "ease_hands_played", [v] => ease? s v
  | "number_format", [v] | "tostring", [v] => some (.str v.shown, s)
  | "Event", [v] => some (v, s)
  | "localize", [_] => some (.str "+1 Joker", s)
  | "card_eval_status_text", _ => some (.nil, s)
  | _, _ => none

/-- The state, when the game has noted a call. -/
def noted {R : Type} (c : HostCall) (s : State (Memory R)) : State (Memory R) :=
  { s with world := s.world.note c }

/-- Is the value no function, and nothing that a loop goes through? -/
def Lua.Value.isFlat : Value → Bool
  | .closure .. | .entries _ => false
  | _ => true

/-- A game that **notes** each call. -/
def recordingGame : Host (Memory ℕ) where
  call name args s :=
    (answer? name args s).map fun o => (o.1, noted (.function name args) o.2)
  method receiver name args s :=
    match name, args with
    | "add_event", [event] =>
      some (.nil, noted (.method receiver name args) { s with world := s.world.schedule event })
    | "recalculate", [] => some (.nil, noted (.method receiver name args) s)
    | _, _ => none

/-! ### The laws -/

section Laws

variable {R : Type} {σ : ℕ → ℕ} {s t : State (Memory R)} {v : Value} {args : List Value}

/-- A value that the game makes of texts and numbers alone. -/
theorem agree_answer (h : s.Renames σ t) (hs : Poised s) {plain : Value}
    (hplain : ∀ τ, plain.rename τ = plain) :
    Agree σ (Yields σ s) (some (plain, s)) (some (plain, t)) :=
  .done ⟨hs.stays, (hplain σ).symm, fun τ _ => hplain τ⟩ h

/-- The game remembers something else. -/
theorem agree_withWorld {w w' : Memory R} (h : s.Renames σ t) (hs : Poised s)
    (hw : w.Renames σ w') (hwithin : w.Within s.fresh) (hv : v.Within s.fresh) :
    Agree σ (Yields σ s) (some (v, { s with world := w }))
      (some (v.rename σ, { t with world := w' })) := by
  have hpoised : Poised { s with world := w } :=
    hs.grows (s.grows_withWorld w) { hs.contained with world := hwithin }
  exact .done ⟨⟨hpoised, le_rfl, rfl⟩, rfl, hv⟩ (h.withWorld hw)

/-- The call is noted in both runs. -/
theorem agree_noted {o o' : Option (Value × State (Memory R))} {c : HostCall}
    (hc : ∀ τ : ℕ → ℕ, (∀ a < s.fresh, τ a = a) → c.rename τ = c) (h : Agree σ (Yields σ s) o o') :
    Agree σ (Yields σ s) (o.map fun o => (o.1, noted c o.2))
      (o'.map fun o => (o.1, noted (c.rename σ) o.2)) := by
  cases h with
  | wrong => exact .wrong
  | @done v w u u' hyields hstates =>
      have hwithin : (u.world.note c).Within u.fresh :=
        hyields.poised.contained.world.note fun τ hτ =>
          hc τ fun a ha => hτ a (ha.trans_le hyields.fresh)
      have hpoised : Poised (noted c u) :=
        hyields.poised.grows (u.grows_withWorld _)
          { hyields.poised.contained with world := hwithin }
      exact .done ⟨⟨hpoised, hyields.fresh, hyields.locals⟩, hyields.value, hyields.within⟩
        (hstates.withWorld (hstates.world.note c))

theorem map_rename_of_within {n : ℕ} (h : ∀ v ∈ args, v.Within n) {τ : ℕ → ℕ}
    (hτ : ∀ a < n, τ a = a) : args.map (Value.rename τ) = args :=
  (List.map_congr_left fun v hv => h v hv τ hτ).trans (List.map_id args)

end Laws

section Recording

variable {σ : ℕ → ℕ} {s t : State (Memory ℕ)} {name : String}

/-- A function is alike if its answer is. -/
theorem callsAlike_of_answer
    (h : ∀ {σ : ℕ → ℕ} {s t : State (Memory ℕ)} {args : List Value}, s.Renames σ t → Poised s →
      (∀ v ∈ args, v.Within s.fresh) →
      Agree σ (Yields σ s) (answer? name args s) (answer? name (args.map (Value.rename σ)) t)) :
    recordingGame.CallsAlike name := by
  intro σ s t args hst hs hargs
  refine agree_noted (c := .function name args) (fun τ hτ => ?_) (h hst hs hargs)
  rw [HostCall.rename, map_rename_of_within hargs hτ]

/-- The hands left are read and written at the same place. -/
theorem agree_ease (h : s.Renames σ t) (hs : Poised s) (n : ExactNumber) :
    Agree σ (Yields σ s) (ease? s (.number n)) (ease? t (.number n)) := by
  have hread := h.read hs.contained HandChange.handsLeft
  simp only [ease?, hread]
  cases s.read HandChange.handsLeft with
  | none => exact .wrong
  | some v =>
      cases v with
      | number l =>
          have hlast : (pathFields HandChange.handsLeft).getLast? = some "hands_left" := by decide
          have hwithin : (Value.number (l.add n)).Within s.fresh := fun _ _ => rfl
          have hcases := h.write_cases hs.contained HandChange.handsLeft (.number (l.add n))
          rw [hlast] at hcases
          obtain ⟨hwrite, hwrite'⟩ | ⟨a, name, hname, hwrite, hwrite'⟩ | ⟨hnone, -⟩ := hcases
          · simp only [Value.rename] at hwrite'
            simp only [Option.map_some, Value.rename, hwrite, hwrite', Option.map_none]
            exact .wrong
          · obtain rfl := Option.some.inj hname
            simp only [Value.rename] at hwrite'
            simp only [Option.map_some, Value.rename, hwrite, hwrite']
            have hname : "hands_left" ≠ "C" := by decide
            have hpoised := hs.setField a hname hwithin
            exact .done ⟨⟨hpoised, le_rfl, rfl⟩, rfl, fun _ _ => rfl⟩ (h.setField a _ _)
          · cases hnone
      | _ => exact .wrong

/-- The functions that the code of a trigger calls do not look at addresses. -/
theorem recordingGame_callsAlike :
    ∀ name ∈ ["pseudorandom", "ease_hands_played", "number_format", "Event"],
      recordingGame.CallsAlike name := by
  simp only [List.forall_mem_cons, List.not_mem_nil, false_implies, implies_true, and_true]
  refine ⟨?draw, ?ease, ?format, ?event⟩ <;>
    refine callsAlike_of_answer fun {σ s t args} h hs hargs => ?_
  -- A call with another number of arguments is not answered.
  case draw =>
    obtain _ | ⟨seed, _ | ⟨min, _ | ⟨max, _ | ⟨other, rest⟩⟩⟩⟩ := args
    case cons.cons.cons.nil =>
      have hmin : min.Within s.fresh := hargs min (by simp)
      exact agree_withWorld h hs (h.world.withRest _)
        (fun τ hτ => (Memory.Renames.withRest (hs.contained.world τ hτ).symm _).symm) hmin
    all_goals exact .wrong
  case ease =>
    obtain _ | ⟨v, _ | ⟨other, rest⟩⟩ := args
    case cons.nil =>
      cases v with
      | number n => exact agree_ease h hs n
      | _ => exact .wrong
    all_goals exact .wrong
  case format =>
    obtain _ | ⟨v, _ | ⟨other, rest⟩⟩ := args
    case cons.nil =>
      have hshown : answer? "number_format" [v.rename σ] t = some (.str v.shown, t) := by
        rw [← v.shown_rename σ]
        rfl
      rw [List.map_singleton, hshown]
      exact agree_answer h hs fun _ => rfl
    all_goals exact .wrong
  case event =>
    obtain _ | ⟨v, _ | ⟨other, rest⟩⟩ := args
    case cons.nil => exact .done ⟨hs.stays, rfl, hargs v (by simp)⟩ h
    all_goals exact .wrong

/-- An answer does not change the record. -/
theorem record_of_answer {args : List Value} {v : Value} (h : answer? name args s = some (v, t)) :
    t.world.record = s.world.record := by
  rw [answer?.eq_def] at h
  split at h
  case h_2 w =>
    rw [ease?.eq_def] at h
    split at h
    · split at h
      · obtain ⟨u, hwrite, heq⟩ := Option.map_eq_some_iff.mp h
        obtain ⟨-, rfl⟩ := Prod.mk.inj heq
        rw [State.world_of_write hwrite]
      · cases h
    · cases h
  case h_8 => cases h
  all_goals exact (Prod.mk.inj (Option.some.inj h)).2 ▸ rfl

/-- The methods neither. -/
theorem recordingGame_methodsAlike :
    ∀ name ∈ ["add_event", "recalculate"], recordingGame.MethodsAlike name := by
  simp only [List.forall_mem_cons, List.not_mem_nil, false_implies, implies_true, and_true]
  refine ⟨?schedule, ?display⟩ <;> intro σ s t receiver args h hs hreceiver hargs
  case schedule =>
    obtain _ | ⟨event, _ | ⟨other, rest⟩⟩ := args
    case cons.nil =>
      have hcall : ∀ τ : ℕ → ℕ, (∀ a < s.fresh, τ a = a) →
          (HostCall.method receiver "add_event" [event]).rename τ =
            .method receiver "add_event" [event] := by
        intro τ hτ
        rw [HostCall.rename, hreceiver τ hτ, map_rename_of_within hargs hτ]
      have hevent : event.Within s.fresh := hargs event (by simp)
      exact agree_noted hcall (agree_withWorld h hs (h.world.schedule event)
        (hs.contained.world.schedule hevent) fun _ _ => rfl)
    all_goals exact .wrong
  case display =>
    obtain _ | ⟨other, rest⟩ := args
    case nil =>
      have hcall : ∀ τ : ℕ → ℕ, (∀ a < s.fresh, τ a = a) →
          (HostCall.method receiver "recalculate" []).rename τ =
            .method receiver "recalculate" [] := by
        intro τ hτ
        rw [HostCall.rename, hreceiver τ hτ]
        rfl
      exact agree_noted hcall (agree_answer h hs fun _ => rfl)
    all_goals exact .wrong

end Recording

/-- The record is that of the answers. -/
theorem recordingGame_records : recordingGame.Records Memory.record where
  function {name args s v t} h := by
    obtain ⟨⟨w, u⟩, hanswer, heq⟩ := Option.map_eq_some_iff.mp h
    obtain ⟨-, rfl⟩ := Prod.mk.inj heq
    have hrecord : u.world.record = s.world.record := record_of_answer hanswer
    exact congrArg (· ++ [HostCall.function name args]) hrecord
  method {receiver name args s v t} h := by
    simp only [recordingGame] at h
    split at h
    · obtain ⟨-, rfl⟩ := Prod.mk.inj (Option.some.inj h)
      rfl
    · obtain ⟨-, rfl⟩ := Prod.mk.inj (Option.some.inj h)
      rfl
    · cases h

theorem idle_noted (c : HostCall) (s : State (Memory ℕ)) : Idle s (noted c s) :=
  ⟨s.grows_withWorld _, rfl, rfl⟩

/-- **The game keeps the laws.** -/
theorem recordingGame_laws : ShapeLaws recordingGame where
  records := recordingGame_records
  call := recordingGame_callsAlike
  method := recordingGame_methodsAlike
  tostring v s := ⟨v.shown, _, rfl, idle_noted _ s⟩
  localize _ s := ⟨_, _, rfl, idle_noted _ s⟩
  statusText _ _ s := ⟨_, _, rfl, idle_noted _ s⟩

/-! ### The start of a round -/

/-- The **start of a round**, before any call. -/
def recordedStart : State (Memory ℕ) where
  globals := startOfRound.globals
  tables := startOfRound.tables
  fresh := startOfRound.fresh
  world := { rest := 0 }

/-- A reference to a table that is there mentions no other. -/
theorem Lua.Value.within_of_isBelow {n : ℕ} {v : Value} (h : v.IsBelow n)
    (hflat : v.isFlat = true) : v.Within n := by
  cases v with
  | table a => exact Value.within_table.mpr h
  | closure | entries => cases hflat
  | _ => exact fun _ _ => rfl

theorem contained_recordedStart : recordedStart.Contained := by
  have hwithin : ∀ fields : List (String × Value),
      (∀ p ∈ fields, p.2.IsBelow startFields.length ∧ p.2.isFlat = true) → ∀ name,
        ((fields.lookup name).getD .nil).Within startFields.length := fun fields h =>
    Value.getD_lookup_of_forall (P := Value.Within _) (fun _ _ => rfl) fun p hp =>
      Value.within_of_isBelow (h p hp).1 (h p hp).2
  have hfields : ∀ a < startFields.length, ∀ p ∈ startFields.getD a [],
      p.2.IsBelow startFields.length ∧ p.2.isFlat = true := by decide
  exact ⟨nofun, hwithin _ (by decide), fun a ha => ⟨hwithin _ (hfields a ha), nofun⟩,
    fun _ _ => rfl⟩

theorem poised_recordedStart : Poised recordedStart where
  contained := contained_recordedStart
  visible _ _ := rfl
  context := ⟨1, rfl⟩
  colours := ⟨4, rfl⟩

end JokerScript
