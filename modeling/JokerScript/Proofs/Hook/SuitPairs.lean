import JokerScript.Proofs.Hook.Replaced

/-!
# The Replaced Question for Suits

The function that asks whether a card has a suit is replaced, once some joker combines suits. The
new function calls the saved one first and once. Only if the answer is no, it looks for a held
joker that joins the suit asked for with the suit of the card; then the answer is yes. Each block
sees the answer that those before it have left, but pairs are never chained: what counts is
whether some pair of a held owner joins the two suits, not which one, and not how often it is
there.

## Main definitions

* `SuitPair.joins`, `answerAfter` — pairs, and the answer that they leave.
* `ShowsSuit` — a card with a suit.

## Main results

* `carriesOut_pairs` — the change of a pair makes the step of the pair.
* `replacement_isSuit` — the answer of the new function.
-/

namespace JokerScript

open Lua

variable {W : Type} {host : Host W} {naming : Naming} {held : String → Bool}

/-! ### Answers -/

namespace SuitPair

/-- Does the pair join the suit that is asked for and the suit of a card? -/
def joins (asked base : Value) (pair : SuitPair) : Bool :=
  (asked.same (.str pair.first.name) && base.same (.str pair.second.name)) ||
    (asked.same (.str pair.second.name) && base.same (.str pair.first.name))

/-- The answer after a pair. -/
def step (asked base : Value) (answer : Value) (pair : SuitPair) : Value :=
  if answer.same (.bool false) && pair.joins asked base then .bool true else answer

theorem step_false (asked base : Value) (pair : SuitPair) :
    pair.step asked base (.bool false) = .bool (pair.joins asked base) := by
  rw [step]
  cases pair.joins asked base <;> rfl

theorem step_of_not_false {asked base answer : Value} (h : answer.same (.bool false) = false)
    (pair : SuitPair) : pair.step asked base answer = answer := by
  rw [step, h, Bool.false_and, if_neg Bool.false_ne_true]

end SuitPair

/-- **The answer after pairs.** A no becomes a yes if a pair of a held owner joins the suits; any
other answer stays. -/
def answerAfter (naming : Naming) (held : String → Bool) (pairs : List (JokerKey × SuitPair))
    (asked base : Value) : Value → Value
  | .bool false =>
    .bool (pairs.any fun p => held (naming.jokerKey p.1) && p.2.joins asked base)
  | answer => answer

/-- The steps of pairs leave any answer but no. -/
theorem foldl_step_of_not_false {asked base answer : Value}
    (h : answer.same (.bool false) = false) (pairs : List (JokerKey × SuitPair)) :
    pairs.foldl (fun answer p => p.2.step asked base answer) answer = answer := by
  induction pairs with
  | nil => rfl
  | cons p pairs ih => rw [List.foldl_cons, SuitPair.step_of_not_false h, ih]

/-- The steps of pairs turn no into yes if one of the pairs joins the suits. -/
theorem foldl_step_false (asked base : Value) (pairs : List (JokerKey × SuitPair)) :
    pairs.foldl (fun answer p => p.2.step asked base answer) (.bool false) =
      .bool (pairs.any fun p => p.2.joins asked base) := by
  induction pairs with
  | nil => rfl
  | cons p pairs ih =>
      rw [List.foldl_cons, SuitPair.step_false, List.any_cons]
      cases p.2.joins asked base with
      | false => exact ih
      | true => exact foldl_step_of_not_false rfl pairs

theorem answerAfter_eq_foldl (pairs : List (JokerKey × SuitPair)) (asked base answer : Value) :
    answerAfter naming held pairs asked base answer =
      (pairs.filter fun p => held (naming.jokerKey p.1)).foldl
        (fun answer p => p.2.step asked base answer) answer := by
  rw [answerAfter.eq_def]
  split
  · rw [foldl_step_false, List.any_filter]
  · rename_i hanswer
    rw [foldl_step_of_not_false]
    exact Bool.eq_false_iff.mpr fun hsame => hanswer (Value.same_bool.mp hsame)

/-- Neither the order of the pairs matters, nor how often each is there. -/
theorem answerAfter_congr {pairs others : List (JokerKey × SuitPair)}
    (h : ∀ p, p ∈ others ↔ p ∈ pairs) (asked base answer : Value) :
    answerAfter naming held others asked base answer =
      answerAfter naming held pairs asked base answer := by
  have hany : ∀ f : JokerKey × SuitPair → Bool, others.any f = pairs.any f := by
    intro f
    rw [Bool.eq_iff_iff, List.any_eq_true, List.any_eq_true]
    simp only [h]
  rw [answerAfter.eq_def, answerAfter.eq_def]
  split
  · rw [hany]
  · rfl

/-! ### Cards -/

/-- The card at an address has a suit. -/
structure ShowsSuit (base : Value) (c : ℕ) (s : State W) : Prop where
  here : c < s.fresh
  suit : ∃ b < s.fresh, (s.tables c).field "base" = .table b ∧ (s.tables b).field "suit" = base

theorem ShowsSuit.grows {base : Value} {c : ℕ} {s t : State W} (h : ShowsSuit base c s)
    (hgrows : s.Grows t) : ShowsSuit base c t := by
  obtain ⟨b, hb, hbase, hsuit⟩ := h.suit
  rw [← hgrows.tables c h.here] at hbase
  rw [← hgrows.tables b hb] at hsuit
  exact ⟨h.here.trans_le hgrows.fresh, b, hb.trans_le hgrows.fresh, hbase, hsuit⟩

/-- Where a body of the new function runs: the card is the object of the call, and the suit that
is asked for is its first argument. -/
structure AsksSuit (asked base : Value) (c : ℕ) (s : State W) : Prop where
  shown : ShowsSuit base c s
  self : s.root "self" = .table c
  suit : s.root "suit" = asked

namespace AsksSuit

variable {asked base : Value} {c : ℕ} {s t : State W}

theorem grows (h : AsksSuit asked base c s) (hgrows : s.Grows t) : AsksSuit asked base c t :=
  ⟨h.shown.grows hgrows, (hgrows.root _).trans h.self, (hgrows.root _).trans h.suit⟩

theorem pushAnswer (h : AsksSuit asked base c s) (answer : Value) :
    AsksSuit asked base c (s.push "ret" answer) where
  shown := ⟨h.shown.here, h.shown.suit⟩
  self := (s.root_push_of_ne answer (by decide)).trans h.self
  suit := (s.root_push_of_ne answer (by decide)).trans h.suit

/-- The question for two suits, in one order. -/
theorem decides_isPair (h : AsksSuit asked base c s) (first second : Suit) :
    Decides host s (SuitCheck.isPair first second)
      (asked.same (.str first.name) = true ∧ base.same (.str second.name) = true) := by
  obtain ⟨b, -, hbase, hsuit⟩ := h.shown.suit
  have hself : s.read "self" = some (.table c) := by
    rw [State.read_of_dotFree s (by decide), h.self]
  have hasked : s.read "suit" = some asked := by
    rw [State.read_of_dotFree s (by decide), h.suit]
  have htable : s.read "self.base" = some (.table b) :=
    (State.read_child (by decide : DotFree "base") hself).trans (congrArg some hbase)
  have hread : s.read "self.base.suit" = some base :=
    (State.read_child (by decide : DotFree "suit") htable).trans (congrArg some hsuit)
  have hfirst : Decides host s ((Expr.path "suit").equals (.str first.name))
      (asked.same (.str first.name) = true) :=
    ⟨_, eval_binary (by simp) (eval_path hasked) (eval_str _ s) rfl, by rw [Value.truthy_bool]⟩
  exact hfirst.and
    ⟨_, eval_binary (by simp) (eval_path hread) (eval_str _ s) rfl, by rw [Value.truthy_bool]⟩

/-- **The block of a pair** makes its step. -/
theorem exec_combine (h : AsksSuit asked base c s) (pair : SuitPair) (answer : Value) :
    execBlock host (SuitCheck.combine pair) (s.push "ret" answer) =
      some (.next, s.push "ret" (pair.step asked base answer)) := by
  have hbody := h.pushAnswer answer
  have hno : Decides host (s.push "ret" answer)
      ((Expr.path SuitCheck.answer).equals (.bool false)) (answer.same (.bool false) = true) :=
    ⟨_, eval_binary (by simp) (eval_path (State.read_push_self s answer (by decide)))
      (eval_bool false _) rfl, by rw [Value.truthy_bool]⟩
  have hjoins : Decides host (s.push "ret" answer)
      ((SuitCheck.isPair pair.first pair.second).or (SuitCheck.isPair pair.second pair.first))
      (pair.joins asked base = true) :=
    ((hbody.decides_isPair _ _).or (hbody.decides_isPair _ _)).congr (by simp [SuitPair.joins])
  obtain ⟨v, hv, htruthy⟩ := hno.and hjoins
  have hwrite : (s.push "ret" answer).write SuitCheck.answer (.bool true) =
      some (s.push "ret" (.bool true)) := by
    rw [State.write_of_dotFree _ _ (by decide), SuitCheck.answer, State.setRoot_push_self]
  have hset : (Stmt.set SuitCheck.answer (.bool true)).exec host (s.push "ret" answer) =
      some (.next, s.push "ret" (.bool true)) := exec_set (eval_bool true _) hwrite
  have hstmt := exec_ifThen [.set SuitCheck.answer (.bool true)] hv
  rw [← Bool.and_eq_true, ← Bool.eq_iff_iff] at htruthy
  rw [SuitCheck.combine, execBlock_cons_of_next]
  · rfl
  · rw [hstmt, htruthy, SuitPair.step]
    cases answer.same (.bool false) && pair.joins asked base with
    | false => rfl
    | true =>
        rw [if_pos rfl, if_pos rfl, execBlock_cons_of_next hset]
        exact congrArg (fun t => some (Flow.next, t)) (State.close_length (s.push "ret" _))

end AsksSuit

/-! ### The new function -/

/-- The request for a pair of suits. -/
def pairRequest (p : JokerKey × SuitPair) : HookRequest := .ofChange p.1 (.suitPair p.2)

section Run

variable {locals : List (String × Value)} {asked bypass flush base answer : Value} {c : ℕ}
  {u s : State W}

/-- **The change of a pair makes the step of the pair**, in the states that grow from one with
the answer. -/
theorem carriesOut_pairs (h : AsksSuit asked base c s) (hvisible : CalleesVisible s.locals) :
    CarriesOut host pairRequest (fun answer => s.push "ret" answer)
      fun answer p => p.2.step asked base answer where
  visible _ := hvisible.cons (by decide) _
  locals _ _ := rfl
  change := by
    intro p answer t ht
    obtain ⟨t, rfl, hgrows⟩ := ht.exists_of_push
    exact ⟨_, (h.grows hgrows).exec_combine p.2 answer, hgrows.push "ret" _, rfl⟩

/-- **A run of the new function.** -/
theorem run_mergedFunction_pairs (naming : Naming) (pairs : List (JokerKey × SuitPair))
    (hignores : host.IgnoresLocals) (hheld : host.FindsHeld held)
    (hvisible : CalleesVisible locals)
    (hcall : host.call "Card.is_suit" [.table c, asked, bypass, flush] u = some (answer, s))
    (hshown : ShowsSuit base c s) :
    ∃ t, (mergedFunction naming .combineSuits (pairs.map pairRequest) locals).run host
        [.table c, asked, bypass, flush] u =
        some (answerAfter naming held pairs asked base answer, t) ∧
      (s.withLocals u.locals).Grows t ∧
      ∀ record, host.Records record → record t.world = record u.world ++
        .function "Card.is_suit" [.table c, asked, bypass, flush] ::
          pairs.map fun p => findCall naming p.1 := by
  let inner := ("flush_calc", flush) :: ("bypass_debuff", bypass) :: ("suit", asked) ::
    ("self", Value.table c) :: ("card_is_suit_ref", .native "Card.is_suit") :: locals
  have hinner : CalleesVisible inner :=
    ((((hvisible.cons (by decide) _).cons (by decide) _).cons (by decide) _).cons (by decide)
      _).cons (by decide) _
  have hthrough : execBlock host (SuitCheck.template.callThrough "card_is_suit_ref")
      (u.withLocals inner) = some (.next, (s.withLocals inner).push "ret" answer) :=
    execBlock_cons_of_next (exec_letLocal (eval_referenceCall .combineSuits SuitCheck.params
      hignores hcall rfl (.cons rfl (.cons rfl (.cons rfl (.cons rfl .nil))))))
  have hbody : AsksSuit asked base c (s.withLocals inner) :=
    ⟨⟨hshown.here, hshown.suit⟩, rfl, rfl⟩
  obtain ⟨w, hchanges, hgrows, hrecord⟩ := (carriesOut_pairs hbody hinner).exec_changes hheld
    naming pairs hthrough (.refl ((s.withLocals inner).push "ret" answer))
  generalize hfinal : answerAfter naming held pairs asked base answer = final
  have hw : ((s.withLocals inner).push "ret" final).Grows w := by
    rw [← hfinal, answerAfter_eq_foldl]
    exact hgrows
  have hread : w.read "ret" = some final := by
    rw [State.read_of_dotFree w (by decide), hw.root, State.root_push_self]
  have hepilogue : execBlock host SuitCheck.template.epilogue w = some (.ret final, w) :=
    execBlock_cons_of_ret (exec_returning (eval_path hread))
  have hrun := (execBlock_append_of_next hchanges).trans hepilogue
  refine ⟨_, run_closure_of_ret hrun, hw.withLocals u.locals, ?_⟩
  intro record hr
  have hcalls : record w.world = record s.world ++ pairs.map fun p => findCall naming p.1 :=
    hrecord record hr
  exact hcalls.trans (by rw [hr.function hcall, List.append_assoc, List.singleton_append])

/-- **The new function adds the held pairs to the answer.** It is there exactly if a pair was
asked for. Whatever the saved function answers, the new one calls it once, first, and with all
arguments; then a no becomes a yes if a pair of a held owner joins the suits, and nothing else
happens. Other requests for the same pairs, in any order and any number, give the same answer. -/
theorem replacement_isSuit (hignores : host.IgnoresLocals) (hheld : host.FindsHeld held)
    (naming : Naming) (pairs : List (JokerKey × SuitPair)) {loaded : State W}
    (hloaded : Replaceable .combineSuits loaded) :
    (replacement? host naming .combineSuits (pairs.map pairRequest) loaded = none ↔
      pairs = []) ∧
    ∀ f, replacement? host naming .combineSuits (pairs.map pairRequest) loaded = some f →
      ∀ (c : ℕ) (asked bypass flush base answer : Value) (u s : State W),
      host.call "Card.is_suit" [.table c, asked, bypass, flush] u = some (answer, s) →
      ShowsSuit base c s →
      (∃ t, f.run host [.table c, asked, bypass, flush] u =
          some (answerAfter naming held pairs asked base answer, t) ∧
        (s.withLocals u.locals).Grows t ∧
        ∀ record, host.Records record → record t.world = record u.world ++
          .function "Card.is_suit" [.table c, asked, bypass, flush] ::
            pairs.map fun p => findCall naming p.1) ∧
      ∀ others : List (JokerKey × SuitPair), (∀ p, p ∈ others ↔ p ∈ pairs) →
        ∃ g t, replacement? host naming .combineSuits (others.map pairRequest) loaded = some g ∧
          g.run host [.table c, asked, bypass, flush] u =
            some (answerAfter naming held pairs asked base answer, t) := by
  have hfiled : ∀ pairs : List (JokerKey × SuitPair), ∀ r ∈ pairs.map pairRequest,
      r.category = .combineSuits := fun _ => List.forall_mem_map.mpr fun _ _ => rfl
  have hchecked : ∀ pairs : List (JokerKey × SuitPair), ∀ r ∈ pairs.map pairRequest,
      r.check = .ok () :=
    fun _ => List.forall_mem_map.mpr fun _ _ => HookRequest.check_ofChange _ _
  constructor
  · rw [replacement?_eq_none hloaded (hfiled pairs) (hchecked pairs), List.map_eq_nil_iff]
  · intro f hf c asked bypass flush base answer u s hcall hshown
    obtain ⟨hne, rfl⟩ := (replacement?_eq_some hloaded (hfiled pairs) (hchecked pairs)).mp hf
    refine ⟨run_mergedFunction_pairs naming pairs hignores hheld hloaded.visible hcall hshown,
      fun others hothers => ?_⟩
    have hothersNe : others.map pairRequest ≠ [] := by
      obtain ⟨p, hp⟩ := List.exists_mem_of_ne_nil pairs (by simpa using hne)
      simpa using List.ne_nil_of_mem ((hothers p).mpr hp)
    obtain ⟨t, hrun, -⟩ := run_mergedFunction_pairs naming others hignores hheld hloaded.visible
      hcall hshown
    rw [answerAfter_congr hothers] at hrun
    exact ⟨_, t, (replacement?_eq_some hloaded (hfiled others) (hchecked others)).mpr
      ⟨hothersNe, rfl⟩, hrun⟩

end Run

/-- Hearts and diamonds by a joker that is held, hearts and spades by one that is not. -/
def heartPairs : List (JokerKey × SuitPair) :=
  [(⟨"b"⟩, ⟨.hearts, .spades⟩), (⟨"a"⟩, ⟨.hearts, .diamonds⟩), (⟨"a"⟩, ⟨.diamonds, .clubs⟩)]

/-- While only `a` is held, hearts count as diamonds, also if the requests came in another order,
but neither as spades nor, by two pairs, as clubs. -/
theorem replacement_isSuit_hearts : ∃ f t,
    replacement? (recordingHost (· == "j_mod_a")) {} .combineSuits (heartPairs.map pairRequest)
      oneBooster = some f ∧
    f.run (recordingHost (· == "j_mod_a")) [.table 1, .str "Diamonds", .nil, .nil] oneBooster =
      some (.bool true, t) ∧
    t.world = .function "Card.is_suit" [.table 1, .str "Diamonds", .nil, .nil] ::
      ["j_mod_b", "j_mod_a", "j_mod_a"].map
        (fun key => .function "SMODS.find_card" [.str key]) ∧
    (∃ g t, replacement? (recordingHost (· == "j_mod_a")) {} .combineSuits
        ((heartPairs.reverse ++ heartPairs).map pairRequest) oneBooster = some g ∧
      g.run (recordingHost (· == "j_mod_a")) [.table 1, .str "Diamonds", .nil, .nil] oneBooster =
        some (.bool true, t)) ∧
    ∀ suit ∈ ["Spades", "Clubs"], ∃ t,
      f.run (recordingHost (· == "j_mod_a")) [.table 1, .str suit, .nil, .nil] oneBooster =
        some (.bool false, t) := by
  let held : String → Bool := (· == "j_mod_a")
  obtain ⟨hthere, hruns⟩ := replacement_isSuit (recordingHost.ignoresLocals held)
    (recordingHost.findsHeld held) {} heartPairs (replaceable_oneBooster _)
  obtain ⟨f, hf⟩ := Option.ne_none_iff_exists'.mp (hthere.not.mpr (by decide))
  have hasks : ∀ suit : String,
      (recordingHost held).call "Card.is_suit" [.table 1, .str suit, .nil, .nil] oneBooster =
        some (.bool false, { oneBooster with
          world := [.function "Card.is_suit" [.table 1, .str suit, .nil, .nil]] }) := fun _ => rfl
  have hhearts : ShowsSuit (.str "Hearts") 1 oneBooster := ⟨by decide, 5, by decide, rfl, rfl⟩
  have hshown := fun w => hhearts.grows (oneBooster.grows_withWorld w)
  have hdiamonds : answerAfter {} held heartPairs (.str "Diamonds") (.str "Hearts") (.bool false) =
      .bool true := congrArg Value.bool (by decide +kernel)
  have hnone : ∀ suit ∈ ["Spades", "Clubs"], (heartPairs.any fun p =>
      held (Naming.jokerKey {} p.1) && p.2.joins (.str suit) (.str "Hearts")) = false := by
    decide +kernel
  obtain ⟨⟨t, hrun, -, hrecord⟩, hothers⟩ :=
    hruns f hf 1 _ .nil .nil _ _ oneBooster _ (hasks "Diamonds") (hshown _)
  have hreversed := hothers (heartPairs.reverse ++ heartPairs) (by simp)
  rw [hdiamonds] at hrun hreversed
  refine ⟨f, t, hf, hrun, hrecord id (recordingHost.records held), hreversed, fun suit hsuit => ?_⟩
  obtain ⟨⟨t, hrun, -⟩, -⟩ := hruns f hf 1 _ .nil .nil _ _ oneBooster _ (hasks suit) (hshown _)
  have hno : answerAfter {} held heartPairs (.str suit) (.str "Hearts") (.bool false) =
      .bool false := congrArg Value.bool (hnone suit hsuit)
  rw [hno] at hrun
  exact ⟨t, hrun⟩

end JokerScript
