import JokerScript.Proofs.Creation.Slots
import JokerScript.Proofs.Effect.StatusText
import JokerScript.Proofs.Effect.Written
import JokerScript.Proofs.Resolve.Worth

/-!
# Runs of Creations

The code that creates a joker has two parts. The block of the effect looks for a slot, reserves
it, and schedules an event; the event creates the joker later, and drops the reservations if the
block looked for a slot. Each part has one law, which tells everything that its run does to the
slots and to the events.

## Main definitions

* `JokerSlots.admits`, `JokerSlots.attempted` — is a joker created, and the slots after that.
* `JokerCreation.IsCreation` — the functions that create a joker.
* `JokerCreation.CompilesTo` — the blocks that are compiled for a creation.
* `JokerCreation.Attempted` — what the run of such a block leaves behind.

## Main results

* `JokerCreation.run_isCreation` — the run of an event.
* `JokerCreation.exec_compiled` — the run of a compiled block.
-/

namespace JokerScript

open Lua

variable {W : Type} {host : Host W} {queue : EventQueue W} {IsCard : Value → Prop}
  {s t u : State W} {x y : JokerSlots} {params : JokerCreation}

namespace JokerSlots

/-- Is a joker created, whether or not its slot is looked for? -/
def admits (x : JokerSlots) (params : JokerCreation) : Bool :=
  params.skipsSlotCheck || decide (x.count + x.reserved < x.limit)

/-- The slots after an attempt: one more is reserved if one was looked for and found. -/
def attempted (x : JokerSlots) (params : JokerCreation) : JokerSlots :=
  if !params.skipsSlotCheck && x.admits params then { x with reserved := x.reserved + 1 } else x

end JokerSlots

namespace JokerCreation

/-! ### Events -/

/-- The function is the event of a creation. -/
def IsCreation (params : JokerCreation) (f : Value) : Prop :=
  ∃ naming captured, CreationLocals captured ∧ f = .closure [] (params.creation naming) captured

/-- A call of a method of the new card. -/
theorem exec_decoration {method : String} {name? : Option String} {card : Value}
    {P : State W → Prop} (hcard : s.read "joker_card" = some card) (hnone : P s)
    (hcall : ∀ name ∈ name?, ∃ v t, host.method card method [.str name, .bool true] s =
      some (v, t) ∧ P t) :
    ∃ t, execBlock host (decoration method name?) s = some (.next, t) ∧ P t := by
  cases name? with
  | none => exact ⟨s, rfl, hnone⟩
  | some name =>
      obtain ⟨v, t, hmethod, ht⟩ := hcall name rfl
      have hargs : evalArgs host [.str name, .bool true] s = some ([.str name, .bool true], s) :=
        rfl
      have heval : (Expr.method newCard method [.str name, .bool true]).eval host s =
          some (v, t) := (eval_method (eval_path hcard) hargs).trans hmethod
      exact ⟨t, execBlock_cons_of_next (exec_run heval), ht⟩

section Event

variable (laws : SlotLaws host queue IsCard)

include laws

theorem eval_addCard (naming : Naming) (selection : JokerChoice)
    (hname : s.locals.lookup "SMODS" = none) (h : s.HasSlots x) :
    ∃ card t, (Expr.apply "SMODS.add_card" [cardSpec naming selection]).eval host s =
        some (card, t) ∧ (card.truthy = true → IsCard card) ∧
      queue.Leaves s t { x with count := x.count + 1 } [] := by
  obtain ⟨table, hspec⟩ : ∃ table, (cardSpec naming selection).eval host s =
      some (s.alloc table) := by
    cases selection <;> exact ⟨_, rfl⟩
  have halloc := queue.leaves_alloc h table
  obtain ⟨card, t, hcall, hcard, hleaves⟩ := laws.addCard halloc.slots s.fresh
  have hroot : pathRoot "SMODS.add_card" = "SMODS" := by decide
  refine ⟨card, t, ?_, hcard, halloc.trans hleaves⟩
  rw [eval_apply (hroot ▸ hname) (evalArgs_cons hspec (evalArgs_nil _))]
  exact hcall

/-- The edition and the sticker of the new card change at most the limit. -/
theorem exec_decorations (params : JokerCreation) {card : Value} (h : s.HasSlots x)
    (hlookup : s.locals.lookup "joker_card" = some card) (hcard : IsCard card) :
    ∃ t limit, execBlock host params.decorations s = some (.next, t) ∧
      queue.Leaves s t { x with limit } [] ∧
      (params.edition ≠ some negativeEdition → limit = x.limit) := by
  have hread : ∀ {u : State W}, u.locals = s.locals → u.read "joker_card" = some card := by
    intro u hu
    rw [State.read_of_dotFree u (by decide), State.root, hu, hlookup, Option.getD_some]
  obtain ⟨t, hedition, limit, hleaves, hlimit⟩ := exec_decoration (hread rfl)
    (P := fun t => ∃ limit, queue.Leaves s t { x with limit } [] ∧
      (params.edition ≠ some negativeEdition → limit = x.limit))
    ⟨x.limit, .refl queue h, fun _ => rfl⟩ fun edition hedition => by
      obtain ⟨v, t, limit, hcall, hleaves, hlimit⟩ := laws.setEdition h hcard edition
      have hname : params.edition = some edition := hedition
      exact ⟨v, t, hcall, limit, hleaves, fun hne => hlimit fun heq => hne (heq ▸ hname)⟩
  obtain ⟨u, hsticker, hleaves'⟩ := exec_decoration (hread hleaves.locals)
    (P := fun u => queue.Leaves t u { x with limit } []) (.refl queue hleaves.slots)
    fun sticker _ => laws.addSticker hleaves.slots hcard sticker
  refine ⟨u, limit, ?_, hleaves.trans hleaves', hlimit⟩
  rw [decorations, execBlock_append_of_next hedition, hsticker]

/-- The new card is decorated if there is one. -/
theorem exec_decorated (params : JokerCreation) {card : Value} (h : s.HasSlots x)
    (hlookup : s.locals.lookup "joker_card" = some card)
    (hcard : card.truthy = true → IsCard card) :
    ∃ t limit, execBlock host (if params.decorations.isEmpty then []
        else [.ifThen newCard params.decorations]) s = some (.next, t) ∧
      queue.Leaves s t { x with limit } [] ∧
      (params.edition ≠ some negativeEdition → limit = x.limit) := by
  have hread : s.read "joker_card" = some card := by
    rw [State.read_of_dotFree s (by decide), State.root, hlookup, Option.getD_some]
  split
  · exact ⟨s, x.limit, rfl, .refl queue h, fun _ => rfl⟩
  · have hbranch : (Stmt.ifThen newCard params.decorations).exec host s = _ :=
      exec_ifThen params.decorations (eval_path hread)
    cases htruthy : card.truthy with
    | false =>
        rw [htruthy, if_neg (by simp)] at hbranch
        exact ⟨s, x.limit, execBlock_cons_of_next hbranch, .refl queue h, fun _ => rfl⟩
    | true =>
        obtain ⟨t, limit, hrun, hleaves, hlimit⟩ :=
          params.exec_decorations laws h hlookup (hcard htruthy)
        rw [htruthy, if_pos rfl, hrun] at hbranch
        have hclose : t.close s.locals.length = t := by rw [← hleaves.locals, State.close_length]
        simp only [closeBlock, Option.map_some, hclose] at hbranch
        exact ⟨t, limit, execBlock_cons_of_next hbranch, hleaves, hlimit⟩

/-- **The run of an event** creates one joker. If its slot was looked for, all reservations are
dropped. -/
theorem run_isCreation {f : Value} (hf : params.IsCreation f) (h : s.HasSlots x) :
    ∃ t limit, f.run host [] s = some (.bool true, t) ∧
      queue.Leaves s t ⟨x.count + 1, if params.skipsSlotCheck then x.reserved else 0, limit⟩ [] ∧
      (params.edition ≠ some negativeEdition → limit = x.limit) := by
  obtain ⟨naming, captured, hlocals, rfl⟩ := hf
  have hG : ∀ {u : State W} {card : Value}, u.locals = ("joker_card", card) :: captured →
      u.locals.lookup "G" = none := by
    intro u card hu
    rw [hu]
    exact (hlocals.cons (by decide) card).hidden "G" (by simp)
  obtain ⟨card, t₁, hadd, hcard, hleaves₁⟩ := eval_addCard laws naming params.selection
    (hlocals.hidden "SMODS" (by simp)) (h.withLocals captured)
  obtain ⟨t₂, limit, hdecorated, hleaves₂, hlimit⟩ := params.exec_decorated laws
    (hleaves₁.slots.push "joker_card" card) (List.lookup_cons_self ..) hcard
  have hlocals₂ : t₂.locals = ("joker_card", card) :: captured := by
    rw [hleaves₂.locals, State.locals_push, hleaves₁.locals]
    rfl
  have hpending₂ : queue.pending t₂.world = queue.pending s.world := by
    rw [hleaves₂.pending, List.append_nil]
    exact hleaves₁.pending.trans (List.append_nil _)
  obtain ⟨t₃, hreset, hslots₃, hworld₃⟩ : ∃ t₃, execBlock host
      (if params.skipsSlotCheck then [] else [.set jokerBuffer .zero]) t₂ = some (.next, t₃) ∧
      t₃.HasSlots ⟨x.count + 1, if params.skipsSlotCheck then x.reserved else 0, limit⟩ ∧
      t₃.world = t₂.world := by
    cases hskips : params.skipsSlotCheck with
    | true => exact ⟨t₂, rfl, hleaves₂.slots, rfl⟩
    | false =>
        obtain ⟨t₃, hwrite, hslots, -, hworld⟩ :=
          hleaves₂.slots.write_reserved (hG hlocals₂) 0
        have hzero : Expr.zero.eval host t₂ = some (.number (.finite (0 : ℕ)), t₂) := by
          rw [Expr.zero, eval_number, Number.literalValue_of_isZero rfl, Nat.cast_zero]
        exact ⟨t₃, execBlock_cons_of_next (exec_set hzero hwrite), hslots, hworld⟩
  have hbody : execBlock host (params.creation naming) (s.withLocals captured) =
      some (.ret (.bool true), t₃) := by
    rw [creation, List.append_assoc, List.append_assoc,
      execBlock_append_of_next (execBlock_cons_of_next (exec_letLocal hadd)),
      execBlock_append_of_next hdecorated, execBlock_append_of_next hreset,
      execBlock_cons_of_ret (exec_returning (eval_bool true t₃))]
  refine ⟨t₃.withLocals s.locals, limit, run_closure_of_ret hbody,
    ⟨hslots₃.withLocals _, rfl, ?_⟩, hlimit⟩
  calc queue.pending t₃.world = queue.pending s.world := by rw [hworld₃, hpending₂]
    _ = queue.pending s.world ++ [] := (List.append_nil _).symm

end Event

/-! ### Attempts -/

/-- **What an attempt leaves behind** in the state `t`: a local variable that tells whether there
is a creation, the slots, and an event if there is one. -/
structure Attempted (params : JokerCreation) (queue : EventQueue W) (s t : State W)
    (x : JokerSlots) (fs : List Value) : Prop where
  locals : t.locals = (created, .bool (x.admits params)) :: s.locals
  slots : t.HasSlots (x.attempted params)
  pending : queue.pending t.world = queue.pending s.world ++ fs
  length : fs.length = if x.admits params then 1 else 0
  creations : ∀ f ∈ fs, params.IsCreation f

/-- What follows an attempt may leave everything as it is. -/
theorem Attempted.leaves {fs : List Value} (h : params.Attempted queue s t x fs)
    (ht : queue.Leaves t u (x.attempted params) []) : params.Attempted queue s u x fs :=
  ⟨ht.locals.trans h.locals, ht.slots,
    by rw [ht.pending, h.pending, List.append_nil], h.length, h.creations⟩

/-- The local variable tells whether there is a creation. -/
theorem Attempted.read_created {fs : List Value} (h : params.Attempted queue s t x fs) :
    t.read created = some (.bool (x.admits params)) := by
  rw [State.read_of_dotFree t (by decide), State.root, h.locals, List.lookup_cons_self,
    Option.getD_some]

/-- An event is scheduled just if there is a creation. -/
theorem Attempted.isEmpty_eq {fs : List Value} (h : params.Attempted queue s t x fs) :
    fs.isEmpty = !x.admits params := by
  have hlength := h.length
  cases hadmits : x.admits params <;> rw [hadmits] at hlength
  · rw [List.eq_nil_of_length_eq_zero hlength]
    rfl
  · obtain ⟨f, rfl⟩ := List.length_eq_one_iff.mp hlength
    rfl

theorem Attempted.ne_nil_iff {fs : List Value} (h : params.Attempted queue s t x fs) :
    fs ≠ [] ↔ x.admits params = true := by
  rw [← List.isEmpty_eq_false_iff, h.isEmpty_eq, Bool.not_eq_false']

theorem eval_hasRoom (h : s.HasSlots x) (hG : s.locals.lookup "G" = none) :
    hasRoom.eval host s = some (.bool (decide (x.count + x.reserved < x.limit)), s) := by
  obtain ⟨a, hcards, hcount⟩ := h.read_cards hG
  have hlength : (Expr.path "G.jokers.cards").length.eval host s =
      some (.number (.finite x.count), s) := by
    refine eval_unary (eval_path hcards) ?_
    rw [UnaryOp.apply, hcount]
  have hsum : ((Expr.path "G.jokers.cards").length.plus (.path jokerBuffer)).eval host s =
      some (.number (.finite (x.count + x.reserved)), s) :=
    eval_binary (by decide) hlength (eval_path (h.read_reserved hG)) rfl
  refine eval_binary (by decide) hsum (eval_path (h.read_limit hG)) ?_
  have hcast : (x.count + x.reserved : ℚ) < x.limit ↔ x.count + x.reserved < x.limit := by
    norm_cast
  simp only [BinaryOp.apply, BinaryOp.onNumbers?, Option.map_some, ExactNumber.finite_lt, hcast]

section Attempt

variable (laws : SlotLaws host queue IsCard)

include laws

/-- A scheduled function captures the visible variables and stands in the queue. -/
theorem exec_scheduled (h : s.HasSlots x) (hlocals : CreationLocals s.locals) (body : Block) :
    ∃ t, (scheduled body).exec host s = some (.next, t) ∧
      queue.Leaves s t x [.closure [] body s.locals] := by
  obtain ⟨area, hshows⟩ := h
  let table : Table :=
    { field := Function.update (fun _ => .nil) "func" (.closure [] body s.locals) }
  have hrecord : (Expr.record [("func", .thunk body)]).eval host s = some (s.alloc table) := rfl
  have hfunc : ((s.alloc table).2.tables s.fresh).field "func" = .closure [] body s.locals := by
    simp [State.alloc, table]
  obtain ⟨e, t₁, hcall, hgrows, hevent, hpending₁⟩ := laws.event hfunc
  have hgrown : s.Grows t₁ := (s.grows_alloc table).trans hgrows
  obtain ⟨v, t, hadd, hleaves⟩ := laws.addEvent (hshows.grows hgrown) hevent
  have happly : (Expr.apply "Event" [.record [("func", .thunk body)]]).eval host s =
      some (.table e, t₁) := by
    rw [eval_apply_dotFree (by decide) (hlocals.hidden _ (by decide))
      (evalArgs_cons hrecord (evalArgs_nil _))]
    exact hcall
  have hmanager : (Expr.path "G.E_MANAGER").eval host s = _ :=
    eval_path (hshows.read_manager (hlocals.hidden "G" (by simp)))
  refine ⟨t, exec_run ((eval_method hmanager (evalArgs_cons happly (evalArgs_nil _))).trans hadd),
    hleaves.slots, hleaves.locals.trans hgrown.locals, ?_⟩
  rw [hleaves.pending, hpending₁]
  rfl

omit laws in
/-- A slot that was found is reserved. -/
theorem exec_reserveSlot (h : s.HasSlots x) (hlocals : CreationLocals s.locals) :
    ∃ t, execBlock host [.set created (.bool true),
          .set jokerBuffer ((Expr.path jokerBuffer).plus .one)] (s.push created (.bool false)) =
        some (.next, t) ∧
      t.HasSlots { x with reserved := x.reserved + 1 } ∧
      t.locals = (created, .bool true) :: s.locals ∧ t.world = s.world := by
  have hcons : CreationLocals ((created, .bool true) :: s.locals) :=
    hlocals.cons (by decide) (.bool true)
  have hset : (Stmt.set created (.bool true)).exec host (s.push created (.bool false)) =
      some (.next, s.push created (.bool true)) := by
    refine exec_set (eval_bool true _) ?_
    rw [State.write_of_dotFree _ _ (by decide), State.setRoot_push_self]
  have hslots := h.push created (.bool true)
  have hG : (s.push created (.bool true)).locals.lookup "G" = none := hcons.hidden "G" (by simp)
  obtain ⟨t, hwrite, hslots', hlocals', hworld⟩ := hslots.write_reserved hG (x.reserved + 1)
  have hsum : ((Expr.path jokerBuffer).plus .one).eval host (s.push created (.bool true)) =
      some (.number (.finite (x.reserved + 1 : ℕ)), s.push created (.bool true)) := by
    refine eval_binary (by decide) (eval_path (hslots.read_reserved hG)) (eval_number _ _) ?_
    rw [Number.literalValue_one, Nat.cast_add, Nat.cast_one]
    rfl
  refine ⟨t, ?_, hslots', hlocals', hworld⟩
  rw [execBlock_cons_of_next hset, execBlock_cons_of_next (exec_set hsum hwrite)]
  rfl

/-- The reserved slot is for the joker of a new event. -/
theorem exec_reserve (params : JokerCreation) (naming : Naming) (h : s.HasSlots x)
    (hlocals : CreationLocals s.locals) :
    ∃ t, execBlock host [.set created (.bool true),
          .set jokerBuffer ((Expr.path jokerBuffer).plus .one),
          scheduled (params.creation naming)] (s.push created (.bool false)) = some (.next, t) ∧
      queue.Leaves (s.push created (.bool true)) t { x with reserved := x.reserved + 1 }
        [.closure [] (params.creation naming) ((created, .bool true) :: s.locals)] := by
  obtain ⟨t₁, hreserve, hslots, hlocals₁, hworld⟩ : ∃ t₁, execBlock host _ _ = _ ∧ _ :=
    exec_reserveSlot h hlocals
  have hcons : CreationLocals t₁.locals := hlocals₁ ▸ hlocals.cons (by decide) (.bool true)
  obtain ⟨t, hevent, hleaves⟩ := exec_scheduled laws hslots hcons (params.creation naming)
  refine ⟨t, ?_, hleaves.slots, hleaves.locals.trans hlocals₁, ?_⟩
  · exact (execBlock_append_of_next hreserve).trans (execBlock_cons_of_next hevent)
  · rw [hleaves.pending, hworld, hlocals₁]
    rfl

/-- An attempt that does not look for a slot creates a joker, and reserves nothing. -/
theorem exec_attempt_of_skips (naming : Naming) (h : s.HasSlots x)
    (hlocals : CreationLocals s.locals) (hskips : params.skipsSlotCheck = true) :
    ∃ t fs, execBlock host (params.attempt naming) s = some (.next, t) ∧
      params.Attempted queue s t x fs := by
  have hcons : CreationLocals ((created, .bool true) :: s.locals) :=
    hlocals.cons (by decide) (.bool true)
  have hadmits : x.admits params = true := by rw [JokerSlots.admits, hskips, Bool.true_or]
  have hattempted : x.attempted params = x := by
    rw [JokerSlots.attempted, hskips]
    rfl
  obtain ⟨t, hevent, hleaves⟩ := exec_scheduled laws (h.push created (.bool true)) hcons
    (params.creation naming)
  refine ⟨t, _, ?_,
    { locals := hadmits.symm ▸ hleaves.locals
      slots := hattempted.symm ▸ hleaves.slots
      pending := hleaves.pending
      length := by rw [hadmits, if_pos rfl, List.length_singleton]
      creations := fun f hf => ⟨naming, _, hcons, List.mem_singleton.mp hf⟩ }⟩
  rw [attempt, if_pos hskips, execBlock_cons_of_next (exec_letLocal (eval_bool true s)),
    execBlock_cons_of_next hevent]
  rfl

/-- An attempt that looks for a slot creates a joker if it finds one, and reserves the slot. -/
theorem exec_attempt_of_checks (naming : Naming) (h : s.HasSlots x)
    (hlocals : CreationLocals s.locals) (hskips : params.skipsSlotCheck = false) :
    ∃ t fs, execBlock host (params.attempt naming) s = some (.next, t) ∧
      params.Attempted queue s t x fs := by
  have hcons : ∀ b, CreationLocals ((created, .bool b) :: s.locals) :=
    fun b => hlocals.cons (by decide) (.bool b)
  have hadmits : x.admits params = decide (x.count + x.reserved < x.limit) := by
    rw [JokerSlots.admits, hskips, Bool.false_or]
  have hroom : hasRoom.eval host (s.push created (.bool false)) = _ :=
    eval_hasRoom (h.push created (.bool false)) ((hcons false).hidden "G" (by simp))
  have hbranch := exec_ifThen [.set created (.bool true),
    .set jokerBuffer ((Expr.path jokerBuffer).plus .one), scheduled (params.creation naming)] hroom
  rw [← hadmits] at hbranch
  have hblock : execBlock host (params.attempt naming) s =
      execBlock host [.ifThen hasRoom [.set created (.bool true),
        .set jokerBuffer ((Expr.path jokerBuffer).plus .one), scheduled (params.creation naming)]]
        (s.push created (.bool false)) := by
    rw [attempt, if_neg (by simp [hskips]), execBlock_cons_of_next (exec_letLocal (eval_bool ..))]
  rw [hblock]
  cases hfound : x.admits params with
  | true =>
      have hattempted : x.attempted params = { x with reserved := x.reserved + 1 } := by
        rw [JokerSlots.attempted, hskips, hfound]
        rfl
      obtain ⟨t, hreserve, hleaves⟩ := params.exec_reserve laws naming h hlocals
      have hlength : (s.push created (.bool false)).locals.length = t.locals.length := by
        rw [hleaves.locals]
        rfl
      rw [hfound, Value.truthy_bool, if_pos rfl, hreserve, hlength] at hbranch
      simp only [closeBlock, Option.map_some, State.close_length] at hbranch
      exact ⟨t, _, execBlock_cons_of_next hbranch,
        { locals := hfound.symm ▸ hleaves.locals
          slots := hattempted.symm ▸ hleaves.slots
          pending := hleaves.pending
          length := by rw [hfound, if_pos rfl, List.length_singleton]
          creations := fun f hf => ⟨naming, _, hcons true, List.mem_singleton.mp hf⟩ }⟩
  | false =>
      have hattempted : x.attempted params = x := by
        rw [JokerSlots.attempted, hfound, Bool.and_false]
        rfl
      rw [hfound, Value.truthy_bool, if_neg (by simp)] at hbranch
      exact ⟨_, [], execBlock_cons_of_next hbranch,
        { locals := hfound.symm ▸ rfl
          slots := hattempted.symm ▸ h.push created (.bool false)
          pending := (List.append_nil _).symm
          length := by rw [hfound]; rfl
          creations := fun f hf => absurd hf List.not_mem_nil }⟩

/-- **The run of an attempt.** -/
theorem exec_attempt (params : JokerCreation) (naming : Naming) (h : s.HasSlots x)
    (hlocals : CreationLocals s.locals) :
    ∃ t fs, execBlock host (params.attempt naming) s = some (.next, t) ∧
      params.Attempted queue s t x fs := by
  cases hskips : params.skipsSlotCheck with
  | true => exact exec_attempt_of_skips laws naming h hlocals hskips
  | false => exact exec_attempt_of_checks laws naming h hlocals hskips

/-! ### Compiled blocks -/

/-- The message of a status text leaves the slots alone. -/
theorem eval_messageOr (effect : Effect) (h : s.HasSlots x) (hlocals : CreationLocals s.locals) :
    ∃ v t, (effect.messageOr plusJoker).eval host s = some (v, t) ∧ queue.Leaves s t x [] := by
  rw [Effect.messageOr]
  split
  · rename_i text _
    exact ⟨.str text, s, rfl, .refl queue h⟩
  · obtain ⟨v, t, hcall, hleaves⟩ := laws.localize h "k_plus_joker"
    refine ⟨v, t, ?_, hleaves⟩
    rw [plusJoker, eval_apply_dotFree (by decide) (hlocals.hidden _ (by decide))
      (evalArgs_cons (eval_str ..) (evalArgs_nil s))]
    exact hcall

/-- A status text is a call of the game, which comes after the evaluation of its message. -/
theorem exists_call_statusText (effect : Effect) (h : s.HasSlots x)
    (hlocals : CreationLocals s.locals) :
    ∃ text t table args v u, (effect.messageOr plusJoker).eval host s = some (text, t) ∧
      host.call "card_eval_status_text" args (t.alloc table).2 = some (v, u) ∧
      (statusText (effect.messageOr plusJoker) .blue).exec host s = some (.next, u) ∧
      queue.Leaves s u x [] := by
  obtain ⟨a, ha⟩ := hlocals.context
  have hcontext : s.read "context" = some (.table a) := by
    rw [State.read_of_dotFree s (by decide), State.root, ha, Option.getD_some]
  obtain ⟨text, t, hmessage, hleaves⟩ := eval_messageOr laws effect h hlocals
  have hG : t.locals.lookup "G" = none := hleaves.locals ▸ hlocals.hidden "G" (by simp)
  obtain ⟨b, hcolours⟩ := hleaves.slots.read_colours hG
  obtain ⟨card, table, -, hexec⟩ :=
    exists_exec_statusText .blue hcontext (hlocals.hidden _ (by simp)) hmessage hcolours
  have halloc := hleaves.trans (queue.leaves_alloc hleaves.slots table)
  obtain ⟨v, u, hcall, hleaves'⟩ := laws.statusText halloc.slots
    [card, .str "extra", .nil, .nil, .nil, .table t.fresh]
  exact ⟨text, t, table, _, v, u, hmessage, hcall, hexec hcall, halloc.trans hleaves'⟩

/-- **A status text leaves the slots alone.** -/
theorem exec_statusText (effect : Effect) (h : s.HasSlots x) (hlocals : CreationLocals s.locals) :
    ∃ t, (statusText (effect.messageOr plusJoker) .blue).exec host s = some (.next, t) ∧
      queue.Leaves s t x [] := by
  obtain ⟨-, -, -, -, -, u, -, -, hexec, hleaves⟩ := exists_call_statusText laws effect h hlocals
  exact ⟨u, hexec, hleaves⟩

/-- A status text is shown if there is a creation. -/
theorem exec_announce (effect : Effect) {fs : List Value} (hlocals : CreationLocals s.locals)
    (h : params.Attempted queue s t x fs) :
    ∃ u, execBlock host [.ifThen (.path created)
          [statusText (effect.messageOr plusJoker) .blue]] t = some (.next, u) ∧
      params.Attempted queue s u x fs := by
  have hbranch : (Stmt.ifThen (.path created)
      [statusText (effect.messageOr plusJoker) .blue]).exec host t = _ :=
    exec_ifThen _ (eval_path h.read_created)
  rw [Value.truthy_bool] at hbranch
  cases hadmits : x.admits params with
  | false =>
      rw [hadmits, if_neg (by simp)] at hbranch
      exact ⟨t, execBlock_cons_of_next hbranch, h⟩
  | true =>
      have ht : CreationLocals t.locals := h.locals ▸ hlocals.cons (by decide) _
      obtain ⟨u, htext, hleaves⟩ := exec_statusText laws effect h.slots ht
      rw [hadmits, if_pos rfl, execBlock_cons_of_next htext, ← hleaves.locals] at hbranch
      simp only [execBlock, closeBlock, Option.map_some, State.close_length] at hbranch
      exact ⟨u, execBlock_cons_of_next hbranch, h.leaves hleaves⟩

end Attempt

/-- **The block is compiled for a creation**, in either class of triggers. -/
def CompilesTo (params : JokerCreation) (block : Block) : Prop :=
  ∃ (setting : Setting) (trigger : Trigger) (effect : Effect) (s t : Storage) (code : EffectCode),
    s.Reachable ∧ effect.kind = .createJoker params ∧
      (effect.compile setting trigger).run s = (.ok code, t) ∧ block ∈ code.body.blocks.toList

/-- A block inside scoring. -/
theorem compilesTo_attempt (params : JokerCreation) (naming : Naming) :
    params.CompilesTo (params.attempt naming) :=
  ⟨{ joker := { id := ⟨""⟩, key := ⟨""⟩ }, naming }, .handPlayed,
    { id := ⟨""⟩, kind := .createJoker params }, {}, {}, _, .empty, rfl, rfl,
    List.mem_singleton_self _⟩

/-- A block outside scoring shows its message itself. -/
theorem compilesTo_announced (params : JokerCreation) (naming : Naming) (message : Option String) :
    params.CompilesTo (params.attempt naming ++ [.ifThen (.path created)
      [statusText (Effect.messageOr ⟨⟨""⟩, .createJoker params, message⟩ plusJoker) .blue]]) :=
  ⟨{ joker := { id := ⟨""⟩, key := ⟨""⟩ }, naming }, .roundEnd,
    { id := ⟨""⟩, kind := .createJoker params, customMessage := message }, {}, {}, _, .empty, rfl,
    rfl, List.mem_singleton_self _⟩

/-- **The run of a compiled block** is that of an attempt. -/
theorem exec_compiled (laws : SlotLaws host queue IsCard) {block : Block}
    (hblock : params.CompilesTo block) (h : s.HasSlots x) (hlocals : CreationLocals s.locals) :
    ∃ t fs, execBlock host block s = some (.next, t) ∧ params.Attempted queue s t x fs := by
  obtain ⟨setting, trigger, effect, before, after, code, hreachable, hkind, hrun, hmem⟩ := hblock
  obtain ⟨t, fs, hattempt, hattempted⟩ := params.exec_attempt laws setting.naming h hlocals
  have hwrites := Effect.writes_of_run_compile hreachable hrun
  generalize code.body = body at hwrites hmem
  cases hwrites with
  | creation hkind' hclass =>
      obtain rfl := EffectKind.createJoker.inj (hkind.symm.trans hkind')
      obtain rfl := List.mem_singleton.mp hmem
      exact ⟨t, fs, hattempt, hattempted⟩
  | creationAtOnce hkind' hclass =>
      obtain rfl := EffectKind.createJoker.inj (hkind.symm.trans hkind')
      obtain rfl := List.mem_singleton.mp hmem
      obtain ⟨u, hannounce, hattempted'⟩ := exec_announce laws effect hlocals hattempted
      exact ⟨u, fs, by rw [execBlock_append_of_next hattempt, hannounce], hattempted'⟩
  | removal hkind' | removalAtOnce hkind' | handChange hkind' | blindChange hkind'
  | heldHandChange hkind' | discount hkind' | rerollGrant hkind' | suitPair hkind' =>
      cases hkind.symm.trans hkind'

end JokerCreation

end JokerScript
