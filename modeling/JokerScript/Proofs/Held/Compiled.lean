import JokerScript.Proofs.Held.Runs

/-!
# Compiled Held Changes

The effects of one joker on the number of hands are exact inverses of themselves, in
whatever order they come and go: the compilation gives each a slot of its own, and effects
with slots of their own keep the laws.

## Main results

* `compile_held_laws` — the compilation of a list of effects, and the laws of its blocks.
-/

namespace JokerScript

open Lua

/-- **Effects on the number of hands of a held joker** are compiled without failure, each with a
slot of its own, and their blocks keep the laws of held changes in every game whose random
numbers are finite. Arithmetic is exact, so no reference to the game has an infinite factor
or offset. -/
theorem compile_held_laws (setting : Setting) (edits : List (Effect × HandChange))
    (hexact : ∀ p ∈ edits, (Source.ofQuantity p.2.value).IsExact) {start : Storage}
    (hstart : start.Reachable) :
    ∃ (codes : List EffectCode) (changes : List HeldChange) (final : Storage),
      ((edits.map fun p => p.1.editing p.2).mapM (Effect.compile setting .passive)).run start =
        (.ok codes, final) ∧
      List.Forall₂ (HeldChange.ComesFrom setting start) edits changes ∧
      (∀ c ∈ changes, c.Fits final) ∧ changes.Pairwise HeldChange.Apart ∧
      ∀ {W : Type} (host : Host W), host.DrawsFinite →
        HeldLaws host final changes (codes.map (·.body.blocks)) := by
  obtain ⟨codes, changes, final, hrun, hblocks, hedits, -, hslots, hapart⟩ :=
    run_mapM_compile_held setting edits hexact hstart
  have hfits : ∀ c ∈ changes, c.Fits final := fun c hc => (hslots c hc).1
  refine ⟨codes, changes, final, hrun, hedits, hfits, hapart, fun host hdraws => ?_⟩
  rw [hblocks]
  exact heldLaws hdraws hfits hapart

/-! ### Two effects in turn -/

/-- Two more hands, and a random number of hands less. -/
def moreAndLess : List (Effect × HandChange) :=
  [(⟨⟨"more"⟩, .editHand ⟨.add, .permanent, .number Number.two⟩, none⟩,
      ⟨.add, .permanent, .number Number.two⟩),
    (⟨⟨"less"⟩, .editHand ⟨.subtract, .permanent, .text "RANGE:2|3"⟩, none⟩,
      ⟨.subtract, .permanent, .text "RANGE:2|3"⟩)]

/-- The setting of a joker without variables. -/
def plainSetting : Setting := { joker := { id := ⟨"joker"⟩, key := ⟨"joker"⟩ }, naming := {} }

/-- A game that draws the lower bound. -/
def lowestHost : Host Unit where
  call := fun _ args s =>
    match args with
    | [_, .number min, .number _] => some (.number min, s)
    | _ => none
  method := fun _ _ _ _ => none

/-- A state with four hands, whose only table holds itself. -/
def fourHands : State Unit where
  globals := fun _ => .table 0
  tables := fun _ =>
    { field := fun name =>
        if name = "hands" then .number (.finite 4)
        else if name ∈ ["card_limit", "hands_left", "discards_left", "hands_played", "dollars",
          "ante", "round"] ∨ "hand_change".toList <+: name.toList then .number (.finite 0)
        else .table 0 }
  fresh := 1
  world := ()

/-- Three hands come from elsewhere. -/
def threeMore (s : State Unit) : State Unit :=
  match s.read HandChange.roundHands with
  | some (.number n) => (s.write HandChange.roundHands (.number (n.add (.finite 3)))).getD s
  | _ => s

theorem lowestHost_drawsFinite : lowestHost.DrawsFinite := fun _ min _ _ => ⟨min, (), rfl⟩

theorem threeMore_allowed {final : Storage} {changes : List HeldChange}
    (hfits : ∀ c ∈ changes, c.Fits final) :
    (HeldEvent.outside 3 threeMore).Allowed final changes := by
  intro s h
  obtain ⟨q, hq⟩ := h.hands
  obtain ⟨t, ht, hplay⟩ := HeldChange.exists_wrote_hands hfits h (q + 3)
  have hmore : threeMore s = t := by
    rw [threeMore, hq]
    exact congrArg (fun o => o.getD s) ht.write
  rw [hmore]
  refine ⟨hplay, fun q' hq' => ?_, fun c hc x hx => ?_⟩
  · have hsame : (Value.number (.finite q)) = .number (.finite q') :=
      Option.some.inj (hq.symm.trans hq')
    obtain rfl := ExactNumber.finite.inj (Value.number.inj hsame)
    exact ht.value
  · have hform : x ∈ c.forms := by
      rw [List.mem_cons, List.mem_singleton] at hx
      rcases hx with rfl | rfl
      · exact c.applied_mem_forms
      · exact c.original_mem_forms
    exact ht.stored x (HeldChange.form_toList (hfits c hc).slot hform).2
      ((hfits c hc).ne_hands hform)

theorem fourHands_shows {name : String} (hdot : DotFree name)
    (h : "hand_change".toList <+: name.toList) : fourHands.Shows (storedPath name) 0 := by
  have htable : fourHands.read "card.ability.extra" = some (.table 0) := rfl
  have hhands : name ≠ "hands" := by
    rintro rfl
    exact absurd h (by simp)
  have hfield : (fourHands.tables 0).field name = .number (.finite 0) := by
    simp only [fourHands]
    rw [if_neg hhands, if_pos (Or.inr h)]
  exact (State.read_child hdot htable).trans (congrArg some hfield)

theorem fourHands_playable {final : Storage} {changes : List HeldChange}
    (hnames : ∀ name ∈ final.names, "hand_change".toList <+: name.toList)
    (hfits : ∀ c ∈ changes, c.Fits final) : Playable final changes fourHands := by
  constructor
  case hands => exact ⟨4, rfl⟩
  case storage => exact ⟨0, rfl⟩
  case stored => exact fun name hname => ⟨0, fourHands_shows hname.2 (hnames name hname.1)⟩
  case snapshots =>
    intro c hc
    obtain ⟨hlead, hdot⟩ := HeldChange.form_toList (hfits c hc).slot c.original_mem_forms
    exact Or.inr ⟨0, fourHands_shows hdot hlead⟩
  case game =>
    refine ⟨fun _ => 0, ?_⟩
    simp only [GameState.readings, List.forall_mem_cons, List.not_mem_nil, false_implies,
      implies_true, and_true]
    and_intros
    all_goals first | rfl | exact ⟨0, rfl, rfl⟩
  case visible => exact fun _ _ => rfl

/-- Two more hands, a random number less, and three from elsewhere: when the effects are gone,
only the three are left. -/
theorem compile_held_laws_moreAndLess :
    ∃ (codes : List EffectCode) (final : Storage) (t : State Unit),
      ((moreAndLess.map fun p => p.1.editing p.2).mapM
          (Effect.compile plainSetting .passive)).run {} = (.ok codes, final) ∧
      HeldEvent.runAll lowestHost (codes.map (·.body.blocks))
        [.gained 0, .gained 1, .outside 3 threeMore, .lost 0, .lost 1] fourHands = some t ∧
      t.Shows HandChange.roundHands 7 := by
  have htwo : Source.ofQuantity (.number Number.two) = .number Number.two := by decide +kernel
  have hrange : Source.ofQuantity (.text "RANGE:2|3") =
      .range Number.two ⟨false, 1024, 0x8000000000000⟩ := by decide +kernel
  have hexact : ∀ p ∈ moreAndLess, (Source.ofQuantity p.2.value).IsExact := by
    rw [moreAndLess, List.forall_mem_cons, List.forall_mem_singleton, htwo, hrange]
    exact ⟨trivial, trivial⟩
  obtain ⟨codes, changes, final, hrun, hedits, hfits, hapart, hlaws⟩ :=
    compile_held_laws plainSetting moreAndLess hexact .empty
  have hfinal : final = (((moreAndLess.map fun p => p.1.editing p.2).mapM
      (Effect.compile plainSetting .passive)).run {}).2 := by rw [hrun]
  have hnames : ∀ name ∈ final.names, "hand_change".toList <+: name.toList := by
    rw [hfinal]
    decide +kernel
  have hlength : 2 = changes.length := hedits.length_eq
  have hops : ∀ c ∈ changes, c.operation ≠ .set := by
    rcases hedits with _ | ⟨hmore, _ | ⟨hless, _ | _⟩⟩
    rw [List.forall_mem_cons, List.forall_mem_singleton, hmore.1, hless.1]
    decide
  have hclear : ∀ c ∈ changes, c.Clear fourHands := by
    intro c hc
    obtain ⟨hlead, hdot⟩ := HeldChange.form_toList (hfits c hc).slot c.applied_mem_forms
    exact (HeldChange.clear_iff_applied (hops c hc)).mpr (fourHands_shows hdot hlead)
  have hevents : ∀ e ∈ [.gained 0, .gained 1, .outside 3 threeMore, .lost 0, .lost 1],
      HeldEvent.Allowed final changes e := by
    simp only [List.forall_mem_cons, List.not_mem_nil, false_implies, implies_true, and_true]
    refine ⟨?_, ?_, threeMore_allowed hfits, ?_, ?_⟩
    all_goals
      rw [HeldEvent.Allowed]
      omega
  have hturns : ∀ i < changes.length, Settles false (HeldEvent.turns i
      [.gained 0, .gained 1, .outside 3 threeMore, .lost 0, .lost 1]) := by
    intro i hi
    have hcases : i = 0 ∨ i = 1 := by omega
    rcases hcases with rfl | rfl
    · exact ⟨rfl, rfl⟩
    · exact ⟨rfl, rfl⟩
  have hfour : fourHands.Shows HandChange.roundHands 4 := rfl
  obtain ⟨t, hruns, hhands, -⟩ := (hlaws lowestHost lowestHost_drawsFinite).inverse hops _ hevents
    hturns fourHands 4 (fourHands_playable hnames hfits) hclear hfour
  refine ⟨codes, final, t, hrun, hruns, ?_⟩
  have hseven : (4 : ℚ) + (List.map HeldEvent.added
      [.gained 0, .gained 1, .outside 3 threeMore, .lost 0, .lost 1]).sum = 7 := by
    simp [HeldEvent.added]
    norm_num
  exact hseven ▸ hhands

end JokerScript
