import JokerScript.Proofs.Triggered.Compiled
import JokerScript.Proofs.Triggered.Recorder

/-!
# The Two Shapes of a Change

An effect that happens at a trigger has two shapes. Inside scoring its block is **deferred**: it
leaves the message to the return table. Outside scoring the block runs **at once**, and shows the
message itself, before the change or after it. The two shapes ask the storage of the joker for
the same, and their runs from one state come to the same: they agree on the state of the game, up
to the addresses of new tables, on the scheduled events, and on all calls of the game but those
that show a text.

## Main definitions

* `Reads` — expressions that only read.
* `EffectBody.SameRun` — the runs of two bodies come to the same.
* `Effect.Shapes` — the two shapes of an effect.

## Main results

* `EffectBody.sameRun_triggered`, `JokerCreation.sameRun` — a text before a change, and after it.
* `Effect.exec_compile_sameRun` — the two shapes of compiled effects.
-/

namespace JokerScript

open Lua

variable {R : Type} {host : Host (Memory R)} {σ : ℕ → ℕ} {s t u : State (Memory R)} {v : Value}
  {e value : Expr}

/-! ### Amounts -/

/-- An expression that only **reads**: it calls nothing, and makes no table. -/
inductive Reads : Expr → Prop
  | path (p : String) : Reads (.path p)
  | number (n : Number) : Reads (.number n)
  | unary (op : UnaryOp) {e : Expr} (he : Reads e) : Reads (.unary op e)
  | binary {op : BinaryOp} (hop : op ≠ .and ∧ op ≠ .or) {l r : Expr} (hl : Reads l)
      (hr : Reads r) : Reads (.binary op l r)

namespace Reads

theorem alike (h : Reads e) : e.Alike host := by
  induction h with
  | path p => exact alike_path p
  | number n => exact alike_number n
  | unary op _ ih => exact alike_unary op ih
  | binary hop _ _ ihl ihr => exact alike_binary hop ihl ihr

/-- It changes nothing. -/
theorem eq_of_eval (h : Reads e) (heval : e.eval host s = some (v, t)) : t = s := by
  induction h generalizing s t v with
  | path p => exact (read_of_eval_path heval).2
  | number n => exact (Prod.mk.inj (Option.some.inj heval)).2.symm
  | @unary op e _ ih =>
      have hunary : (Expr.unary op e).eval host s = (e.eval host s).bind fun o =>
          (op.apply o.2 o.1).bind fun r => some (r, o.2) := rfl
      rw [hunary] at heval
      obtain ⟨⟨w, u⟩, he, hop⟩ := Option.bind_eq_some_iff.mp heval
      obtain ⟨r, -, hr⟩ := Option.bind_eq_some_iff.mp hop
      obtain ⟨-, rfl⟩ := Prod.mk.inj (Option.some.inj hr)
      exact ih he
  | binary hop _ _ ihl ihr =>
      rw [eval_binary_eq hop] at heval
      obtain ⟨⟨a, u⟩, hl, hrest⟩ := Option.bind_eq_some_iff.mp heval
      obtain ⟨⟨b, x⟩, hr, hv⟩ := Option.bind_eq_some_iff.mp hrest
      obtain ⟨r, -, hr'⟩ := Option.map_eq_some_iff.mp hv
      obtain ⟨-, rfl⟩ := Prod.mk.inj hr'
      exact (ihr hr).trans (ihl hl)

/-- Variables of the game. -/
theorem gameVar {x : GameVar} (he : x.expr? = some e) : Reads e := by
  obtain ⟨reading, -, rfl⟩ := GameVar.exists_reading he
  have hreading : Reads reading.expr := by
    cases reading with
    | field p => exact .path p
    | count p => exact .unary .len (.path p)
  have hscaled : Reads (GameVar.scaled reading.expr x.multiplier) := by
    rw [GameVar.scaled]
    split
    · exact hreading
    · exact .binary (by decide) hreading (.number _)
  rw [GameVar.shifted]
  split
  · exact hscaled
  · split
    · exact .binary (by decide) hscaled (.number _)
    · exact .binary (by decide) hscaled (.number _)

end Reads

/-- A settled quantity is read, or it is drawn between two stored numbers. -/
theorem Source.reads_or_range (naming : Naming) (request : ResolveRequest) (st : Storage)
    (name : String) (source : Source) :
    let r := source.settled naming request st name
    (r.isStable = true ∧ Reads r.expr) ∨ ∃ slot min max seed, r = .range slot min max seed := by
  have hliteral : ∀ n : Number,
      (request.literal n).isStable = true ∧ Reads (request.literal n).expr := by
    intro n
    rw [ResolveRequest.literal]
    split
    · exact ⟨rfl, .path _⟩
    · exact ⟨rfl, .number n⟩
  cases source with
  | gameVar x =>
      simp only [Source.settled]
      cases he : x.expr? with
      | none => exact .inl (hliteral _)
      | some e => exact .inl ⟨rfl, Reads.gameVar he⟩
  | range min max => exact .inr ⟨_, _, _, _, rfl⟩
  | named name =>
      simp only [Source.settled]
      split
      · exact .inl ⟨rfl, .path _⟩
      · exact .inl (hliteral _)
  | number n => exact .inl (hliteral n)
  | unresolved => exact .inl (hliteral _)

/-- The local variable of a draw is none that the code takes from elsewhere. -/
theorem drawn_notMem_shapeRoots (slot : String) : slot ++ "_value" ∉ shapeRoots := by
  have hsuffix : ∀ name ∈ shapeRoots, ¬"_value".toList <:+ name.toList := by decide
  refine fun hmem => hsuffix _ hmem ?_
  rw [String.toList_append]
  exact List.suffix_append _ _

/-- **The setup of an amount** may draw, and the amount is then read. -/
theorem Effect.bound_alike (laws : ShapeLaws host) (setting : Setting) (effect : Effect)
    (request : SlotRequest) (st : Storage) (q : Quantity) :
    (∃ n, BlockAlike host n (effect.bound setting request st q).setup) ∧
      Reads (effect.bound setting request st q).value := by
  rw [Effect.bound, BoundQuantity.ofResolved]
  obtain ⟨hstable, hreads⟩ | ⟨slot, min, max, seed, hrange⟩ := Source.reads_or_range
    setting.naming (.declared (request.slot st) effect.id.text)
    (st.claim request.base request.suffixes).2 (request.slot st) (.ofQuantity q)
  · have hr : (effect.settled setting request st q).isStable = true := hstable
    rw [if_pos hr]
    exact ⟨⟨0, blockAlike_nil⟩, hreads⟩
  · have hr : effect.settled setting request st q = .range slot min max seed := hrange
    have hunstable : ¬(Resolved.range slot min max seed).isStable = true := Bool.false_ne_true
    rw [hr, if_neg hunstable]
    refine ⟨⟨1, .cons (alike_letLocal (drawn_notMem_shapeRoots _) ?_) blockAlike_nil⟩, .path _⟩
    refine alike_apply (by decide) (fun _ _ => rfl) (laws.call _ (by decide)) ?_
    simp only [List.forall_mem_cons, List.not_mem_nil, false_implies, implies_true, and_true]
    exact ⟨alike_str _, alike_path _, alike_path _⟩

/-! ### Changes -/

section Changes

variable (laws : ShapeLaws host) (hvalue : Reads value)

include laws hvalue

theorem HandChange.change_alike (duration : Duration) (operation : HandOperation) :
    BlockAlike host 0 (change duration operation value) := by
  have hset : ∀ {p : String} {e : Expr}, Assignable p → Reads e → (Stmt.set p e).Alike host 0 :=
    fun hp he => alike_set hp he.alike
  cases duration with
  | permanent =>
      -- The operations differ in the total that is written, and in what the game is told to add.
      obtain ⟨total, eased, hchange, htotal, heased⟩ : ∃ total eased : Expr,
          permanentChange operation value =
            [.set roundHands total, .call "ease_hands_played" [eased]] ∧
          Reads total ∧ Reads eased := by
        cases operation with
        | add => exact ⟨_, _, rfl, .binary (by decide) (.path _) hvalue, hvalue⟩
        | subtract => exact ⟨_, _, rfl, .binary (by decide) (.path _) hvalue, .unary .neg hvalue⟩
        | set => exact ⟨_, _, rfl, hvalue, .binary (by decide) hvalue (.path _)⟩
      have hease : (Stmt.call "ease_hands_played" [eased]).Alike host 0 := by
        refine alike_run (alike_apply (by decide) (fun _ _ => rfl) (laws.call _ (by decide)) ?_)
        exact fun e he => List.mem_singleton.mp he ▸ heased.alike
      rw [change, hchange]
      exact .cons (hset (by decide) htotal) (.cons hease blockAlike_nil)
  | round =>
      cases operation with
      | add | subtract =>
          exact .cons (hset (by decide) (.binary (by decide) (.path _) hvalue)) blockAlike_nil
      | set => exact .cons (hset (by decide) hvalue) blockAlike_nil

theorem BlindChange.change_alike (operation : BlindOperation) :
    BlockAlike host 0 (change operation value) := by
  have hchips : Reads (newChips operation value) := by
    cases operation with
    | add | subtract | multiply | divide => exact .binary (by decide) (.path _) hvalue
    | set => exact hvalue
  have htext : (Stmt.set "G.GAME.blind.chip_text"
      (.apply "number_format" [.path blindChips])).Alike host 0 := by
    refine alike_set (by decide)
      (alike_apply (by decide) (fun _ _ => rfl) (laws.call _ (by decide)) ?_)
    exact fun e he => List.mem_singleton.mp he ▸ alike_path _
  have hdisplay : (Stmt.run (.method (.path "G.HUD_blind") "recalculate" [])).Alike host 0 :=
    alike_run (alike_method (laws.method _ (by decide)) (alike_path _) (List.forall_mem_nil _))
  exact .cons (alike_set (by decide) hchips.alike) (.cons htext (.cons hdisplay blockAlike_nil))

end Changes

/-- Scheduling an event looks at no address. -/
theorem alike_scheduled (laws : ShapeLaws host) (body : Block) :
    (scheduled body).Alike host 0 := by
  have hevent : (Expr.apply "Event" [.record [("func", .thunk body)]]).Alike host := by
    refine alike_apply (by decide) (fun _ _ => rfl) (laws.call _ (by decide)) fun e he => ?_
    rw [List.mem_singleton.mp he]
    exact alike_record fun f hf => List.mem_singleton.mp hf ▸ alike_thunk body
  refine alike_run (alike_method (laws.method _ (by decide)) (alike_path _) fun e he => ?_)
  rw [List.mem_singleton.mp he]
  exact hevent

theorem JokerCreation.attempt_alike (laws : ShapeLaws host) (naming : Naming)
    (params : JokerCreation) : BlockAlike host 1 (params.attempt naming) := by
  have hcreated : ∀ b, (Stmt.letLocal created (.bool b)).Alike host 1 :=
    fun b => alike_letLocal (by decide) (alike_bool b)
  have hscheduled := alike_scheduled laws (params.creation naming)
  rw [attempt]
  split
  · exact .cons (hcreated true) (.cons hscheduled blockAlike_nil)
  · have hroom : hasRoom.Alike host :=
      Reads.alike (.binary (by decide) (.binary (by decide) (.unary .len (.path _)) (.path _))
        (.path _))
    have hbuffer : Reads ((Expr.path jokerBuffer).plus .one) :=
      .binary (by decide) (.path _) (.number _)
    have hreserve := BlockAlike.cons (alike_set (p := created) (by decide) (alike_bool true))
      (.cons (alike_set (p := jokerBuffer) (by decide) hbuffer.alike)
        (.cons hscheduled blockAlike_nil))
    exact .cons (hcreated false) (.cons (alike_ifThen hroom hreserve) blockAlike_nil)

/-! ### Amounts that cannot be read -/

section Failures

variable {op : BinaryOp} {message : Expr}

/-- Reading a path changes nothing, so that the second operand is evaluated in the same state. -/
theorem eval_path_binary_eq_none (hop : op ≠ .and ∧ op ≠ .or) (p : String)
    (h : e.eval host s = none) : (Expr.binary op (.path p) e).eval host s = none := by
  rw [eval_binary_eq hop]
  have hpath : (Expr.path p).eval host s = (s.read p).map fun v => (v, s) := rfl
  cases hread : s.read p with
  | none => rw [hpath, hread]; rfl
  | some v => rw [hpath, hread, Option.map_some, Option.bind_some, h]; rfl

theorem execBlock_set_eq_none (p : String) (rest : Block) (h : e.eval host s = none) :
    execBlock host (.set p e :: rest) s = none := by
  have hexec : (Stmt.set p e).exec host s = (e.eval host s).bind fun o =>
      (o.2.write p o.1).bind fun s => some (.next, s) := rfl
  have hcons : execBlock host (.set p e :: rest) s =
      andThen ((Stmt.set p e).exec host s) (execBlock host rest) := rfl
  rw [hcons, hexec, h]
  rfl

theorem HandChange.exec_change_eq_none (h : value.eval host s = none) (duration : Duration)
    (operation : HandOperation) : execBlock host (change duration operation value) s = none := by
  cases duration <;> cases operation
  case permanent.set | round.set => exact execBlock_set_eq_none _ _ h
  all_goals exact execBlock_set_eq_none _ _ (eval_path_binary_eq_none (by decide) _ h)

theorem BlindChange.exec_change_eq_none (h : value.eval host s = none)
    (operation : BlindOperation) : execBlock host (change operation value) s = none := by
  cases operation
  case set => exact execBlock_set_eq_none _ _ h
  all_goals exact execBlock_set_eq_none _ _ (eval_path_binary_eq_none (by decide) _ h)

/-- A message that cannot be made is not shown. -/
theorem exec_statusText_eq_none (hs : Poised s) (h : message.eval host s = none)
    (colour : Colour) : (statusText message colour).exec host s = none := by
  obtain ⟨a, hcontext⟩ := hs.context
  obtain ⟨card, hcard⟩ := eval_textCard host hcontext
  have hroot : pathRoot "card_eval_status_text" = "card_eval_status_text" := by decide
  have hrecord : (Expr.record [("message", message), ("colour", .path colour.path)]).eval host s =
      none := by
    simp only [Expr.record, List.map_cons, Expr.eval, evalFields, h, Option.bind_eq_bind,
      Option.bind_none]
  have hnil : Expr.nil.eval host s = some (.nil, s) := rfl
  have hargs : evalArgs host [(Expr.path "context.blueprint_card").or (.path "card"),
      .str "extra", .nil, .nil, .nil, .record [("message", message),
        ("colour", .path colour.path)]] s = none := by
    simp only [evalArgs, hcard, hrecord, eval_str, hnil, Option.bind_eq_bind, Option.bind_some,
      Option.bind_none]
  have hexec : (statusText message colour).exec host s =
      ((Expr.apply "card_eval_status_text" _).eval host s).bind fun o => some (.next, o.2) := rfl
  rw [hexec, eval_apply_eq _ (hroot ▸ hs.visible _ (by decide)), hargs]
  rfl

end Failures

/-- A message that tells an amount can be made just if the amount can be read. -/
theorem eval_amountMessage_cases (laws : ShapeLaws host) (hs : Poised s) (hvalue : Reads value)
    (before after : String) :
    (∃ v t, (amountMessage before value after).eval host s = some (v, t) ∧ Quiet s t) ∨
      ((amountMessage before value after).eval host s = none ∧ value.eval host s = none) := by
  cases heval : value.eval host s with
  | some o =>
      obtain ⟨v, t⟩ := o
      obtain rfl := hvalue.eq_of_eval heval
      obtain ⟨text, t, hmessage, hquiet⟩ := eval_amountMessage_quiet laws hs heval before after
      exact .inl ⟨_, t, hmessage, hquiet⟩
  | none =>
      have hroot : pathRoot "tostring" = "tostring" := by decide
      have htostring : (Expr.apply "tostring" [value]).eval host s = none := by
        rw [eval_apply_eq _ (hroot ▸ hs.visible _ (by decide)), evalArgs, heval]
        rfl
      refine .inr ⟨?_, rfl⟩
      have hbinary : ∀ l r : Expr, (Expr.binary .concat l r).eval host s = _ :=
        fun l r => eval_binary_eq (by decide) l r s
      have hconcat : amountMessage before value after =
          .binary .concat (.str before)
            (.binary .concat (.apply "tostring" [value]) (.str after)) := rfl
      rw [hconcat, hbinary, eval_str, Option.bind_some, hbinary, htostring]
      rfl

/-! ### The runs of two shapes -/

/-- **The runs of two bodies from `s` come to the same**: both go wrong, or both come to an end in
the same way, and the last states are the same up to the addresses of new tables and the calls
for texts. -/
def EffectBody.SameRun (deferred atOnce : EffectBody) (host : Host (Memory R))
    (s : State (Memory R)) : Prop :=
  ∃ σ : ℕ → ℕ, (∀ a < s.fresh, σ a = a) ∧
    Agree σ (fun flow flow' _ => flow = flow') (deferred.exec host s) (atOnce.exec host s)

/-- The same block comes to the same. -/
theorem EffectBody.sameRun_of_exec_eq {deferred atOnce : EffectBody}
    (h : atOnce.exec host s = deferred.exec host s) : deferred.SameRun atOnce host s := by
  refine ⟨id, fun _ _ => rfl, ?_⟩
  rw [h]
  cases deferred.exec host s with
  | none => exact .wrong
  | some o => exact .done rfl o.2.renames_id

/-- The run of a block that is alike, from a state that is poised. -/
theorem BlockAlike.finishes {n : ℕ} {block : Block} {flow : Flow} (h : BlockAlike host n block)
    (hs : Poised s) (hrun : execBlock host block s = some (flow, t)) :
    Finishes n s flow flow t := by
  have hagree := h (s.renames_id) hs
  rw [hrun] at hagree
  cases hagree with
  | done hends _ => exact hends

/-- **A text before a change.** -/
theorem EffectBody.sameRun_triggered (laws : ShapeLaws host) {m n : ℕ} {setup change : Block}
    {message : Expr} (colour : Colour) (hsetup : BlockAlike host m setup)
    (hchange : BlockAlike host n change)
    (hmessage : ∀ {s}, Poised s →
      (∃ v t, message.eval host s = some (v, t) ∧ Quiet s t) ∨
        (message.eval host s = none ∧ execBlock host change s = none)) (hs : Poised s) :
    (triggered .scoring setup message colour change).SameRun
      (triggered .immediate setup message colour change) host s := by
  have hdeferred : (triggered .scoring setup message colour change).exec host s =
      andThen (execBlock host setup s) (execBlock host change) := execBlock_append ..
  have hatOnce : (triggered .immediate setup message colour change).exec host s =
      andThen (execBlock host setup s)
        (execBlock host (statusText message colour :: change)) := by
    have hblock : (triggered .immediate setup message colour change).exec host s =
        execBlock host (setup ++ [statusText message colour] ++ change) s := rfl
    rw [hblock, List.append_assoc, execBlock_append]
    rfl
  rw [SameRun, hdeferred, hatOnce]
  cases hrun : execBlock host setup s with
  | none => exact ⟨id, fun _ _ => rfl, .wrong⟩
  | some o =>
      obtain ⟨flow, s₁⟩ := o
      obtain ⟨rfl, -, hpoised, hfresh, -⟩ := hsetup.finishes hs hrun
      -- From here on the second run is behind by the text.
      obtain ⟨v, t, heval, hquiet⟩ | ⟨heval, hnone⟩ := hmessage hpoised
      · obtain ⟨u, hstatus, hquiet'⟩ := exec_statusText_quiet laws hpoised heval hquiet colour
        obtain ⟨σ, hσ, hrenames⟩ := hquiet'.exists_renames hpoised.contained
        refine ⟨σ, fun a ha => hσ a (ha.trans_le hfresh), ?_⟩
        have hagree := (hchange hrenames hpoised).mono fun h => h.flow.trans h.flow'.symm
        rw [← execBlock_cons_of_next hstatus] at hagree
        exact hagree
      · have hstatus := exec_statusText_eq_none hpoised heval colour
        have hwrong : execBlock host (statusText message colour :: change) s₁ = none :=
          congrArg (andThen · (execBlock host change)) hstatus
        refine ⟨id, fun _ _ => rfl, ?_⟩
        rw [andThen, andThen, hnone, hwrong]
        exact .wrong

/-- **A text after a creation**, if there is a creation. -/
theorem JokerCreation.sameRun (laws : ShapeLaws host) (naming : Naming) (params : JokerCreation)
    (effect : Effect) {deferred atOnce : EffectBody}
    (hdeferred : deferred.blocks = .beforeReturn (params.attempt naming))
    (hatOnce : atOnce.blocks = .callback (params.attempt naming ++
      [.ifThen (.path created) [statusText (effect.messageOr plusJoker) .blue]]))
    (hs : Poised s) : deferred.SameRun atOnce host s := by
  rw [EffectBody.SameRun, EffectBody.exec, EffectBody.exec, hdeferred, hatOnce]
  simp only [execBlock_append]
  cases hrun : execBlock host (params.attempt naming) s with
  | none => exact ⟨id, fun _ _ => rfl, .wrong⟩
  | some o =>
      obtain ⟨flow, t⟩ := o
      obtain ⟨rfl, -, hpoised, hfresh, -⟩ := (params.attempt_alike laws naming).finishes hs hrun
      obtain ⟨u, hannounce, hquiet⟩ : ∃ u, (Stmt.ifThen (.path created)
          [statusText (effect.messageOr plusJoker) .blue]).exec host t = some (.next, u) ∧
          Quiet t u := by
        have hread : t.read created = some (t.root created) := t.read_of_dotFree (by decide)
        rw [exec_ifThen _ (eval_path hread)]
        split
        · obtain ⟨v, w, heval, hmessage⟩ := eval_messageOr_quiet effect fun _ =>
            eval_plusJoker_quiet laws hpoised
          obtain ⟨u, hstatus, hquiet⟩ :=
            exec_statusText_quiet laws hpoised heval hmessage .blue
          refine ⟨u, ?_, hquiet⟩
          simp only [execBlock_singleton, hstatus, closeBlock, Option.map_some,
            ← hquiet.grows.locals, State.close_length]
        · exact ⟨t, rfl, .refl t⟩
      obtain ⟨σ, hσ, hrenames⟩ := hquiet.exists_renames hpoised.contained
      refine ⟨σ, fun a ha => hσ a (ha.trans_le hfresh), ?_⟩
      rw [andThen, execBlock_singleton, hannounce]
      exact .done rfl hrenames

/-! ### Effects -/

namespace Effect

/-- **The two shapes of an effect** that is compiled in the storage `st`. -/
inductive Shapes (setting : Setting) (effect : Effect) (st : Storage) :
    EffectBody → EffectBody → Prop
  | creation {params : JokerCreation} (hkind : effect.kind = .createJoker params) :
      Shapes setting effect st
        { blocks := .beforeReturn (params.attempt setting.naming)
          message := some (effect.messageOr
            (((Expr.path JokerCreation.created).and JokerCreation.plusJoker).or .nil))
          colour := some .blue }
        { blocks := .callback (params.attempt setting.naming ++
            [.ifThen (.path JokerCreation.created)
              [statusText (effect.messageOr JokerCreation.plusJoker) .blue]])
          colour := some .blue }
  | removal {params : ConsumableRemoval} (hkind : effect.kind = .destroyConsumable params) :
      Shapes setting effect st
        { blocks := .beforeReturn (params.block setting.naming effect), colour := some .red }
        { blocks := .callback (params.block setting.naming effect), colour := some .red }
  | handChange {params : HandChange} (hkind : effect.kind = .editHand params) :
      Shapes setting effect st
        (params.triggered .scoring effect (effect.bound setting handsRequest st params.value))
        (params.triggered .immediate effect (effect.bound setting handsRequest st params.value))
  | blindChange {params : BlindChange} (hkind : effect.kind = .modifyBlind params) :
      Shapes setting effect st
        (params.triggered .scoring effect (effect.bound setting blindRequest st params.value))
        (params.triggered .immediate effect (effect.bound setting blindRequest st params.value))

variable {setting : Setting} {effect : Effect} {st : Storage} {deferred atOnce : EffectBody}

theorem messageOr_cases {usual : Expr} {P : Prop}
    (h : (∃ v t, usual.eval host s = some (v, t) ∧ Quiet s t) ∨ (usual.eval host s = none ∧ P)) :
    (∃ v t, (effect.messageOr usual).eval host s = some (v, t) ∧ Quiet s t) ∨
      ((effect.messageOr usual).eval host s = none ∧ P) := by
  cases hcustom : effect.customMessage with
  | some text =>
      rw [messageOr, hcustom]
      exact .inl ⟨_, s, eval_str text s, .refl s⟩
  | none =>
      rw [messageOr, hcustom]
      exact h

/-- **The runs of the two shapes come to the same.** -/
theorem Shapes.sameRun (h : effect.Shapes setting st deferred atOnce) (laws : ShapeLaws host)
    (hs : Poised s) : deferred.SameRun atOnce host s := by
  cases h with
  | @creation params hkind => exact params.sameRun laws setting.naming effect rfl rfl hs
  | @removal params hkind => exact EffectBody.sameRun_of_exec_eq rfl
  | @handChange params hkind =>
      obtain ⟨⟨n, hsetup⟩, hvalue⟩ := effect.bound_alike laws setting handsRequest st params.value
      refine EffectBody.sameRun_triggered laws _ hsetup
        (HandChange.change_alike laws hvalue params.duration params.operation) (fun hs => ?_) hs
      refine effect.messageOr_cases ?_
      cases params.operation <;>
        exact (eval_amountMessage_cases laws hs hvalue _ _).imp_right fun h =>
          ⟨h.1, HandChange.exec_change_eq_none h.2 _ _⟩
  | @blindChange params hkind =>
      obtain ⟨⟨n, hsetup⟩, hvalue⟩ := effect.bound_alike laws setting blindRequest st params.value
      refine EffectBody.sameRun_triggered laws _ hsetup
        (BlindChange.change_alike laws hvalue params.operation) (fun hs => ?_) hs
      refine effect.messageOr_cases ?_
      exact (eval_amountMessage_cases laws hs hvalue _ _).imp_right fun h =>
        ⟨h.1, BlindChange.exec_change_eq_none h.2 _⟩

/-- The quantity of an effect is bound in the same way whenever its slot is claimed. -/
theorem exists_run_bound (setting : Setting) (effect : Effect) (base : String) (q : Quantity)
    (hst : st.Reachable) :
    ∃ final, (bindQuantity setting base valueSuffixes q effect.id).run st =
      (.ok (effect.bound setting ⟨base, valueSuffixes⟩ st q), final) := by
  obtain ⟨r, hbind, rfl⟩ :=
    run_bindQuantity setting base valueSuffixes (List.Subset.refl _) q effect.id hst
  exact ⟨_, hbind⟩

/-- The two shapes are made in one storage, and leave the same one behind. -/
theorem exists_shapes (setting : Setting) (hkind : effect.kind.hasShape .scoring = true)
    (hst : st.Reachable) :
    ∃ deferred atOnce final, effect.Shapes setting st deferred atOnce ∧
      (effect.kind.code setting .scoring effect).run st = (.ok deferred, final) ∧
      (effect.kind.code setting .immediate effect).run st = (.ok atOnce, final) := by
  cases hk : effect.kind with
  | createJoker params => exact ⟨_, _, st, .creation hk, rfl, rfl⟩
  | destroyConsumable params => exact ⟨_, _, st, .removal hk, rfl, rfl⟩
  | editHand params =>
      obtain ⟨final, hbind⟩ := effect.exists_run_bound setting "hands" params.value hst
      refine ⟨_, _, final, .handChange hk, ?_, ?_⟩ <;>
      · rw [EffectKind.code, HandChange.code, if_neg (by decide), Resolver.run_bind_of_ok _ hbind]
        rfl
  | modifyBlind params =>
      obtain ⟨final, hbind⟩ := effect.exists_run_bound setting "blind_size" params.value hst
      refine ⟨_, _, final, .blindChange hk, ?_, ?_⟩ <;>
      · rw [EffectKind.code, BlindChange.code, if_neg (by decide), Resolver.run_bind_of_ok _ hbind]
        rfl
  | discountItems _ | freeRerolls _ | combineSuits _ =>
      rw [hk] at hkind
      cases hkind

/-- The shapes differ in their blocks, and in the message, which only the deferred one has. -/
theorem Shapes.body (h : effect.Shapes setting st deferred atOnce) :
    (∃ block, deferred.blocks = .beforeReturn block) ∧ (∃ block, atOnce.blocks = .callback block) ∧
      deferred = { atOnce with blocks := deferred.blocks, message := deferred.message } ∧
      atOnce.message = none := by
  cases h <;> exact ⟨⟨_, rfl⟩, ⟨_, rfl⟩, rfl, rfl⟩

/-- What an effect asks the storage for depends on the class of its trigger, and is the same for
both classes at which something happens. -/
theorem slotRequest?_eq {scoring immediate : Trigger} (hscoring : scoring.triggerClass = .scoring)
    (himmediate : immediate.triggerClass = .immediate) (effect : Effect) :
    effect.slotRequest? immediate = effect.slotRequest? scoring := by
  rw [slotRequest?, slotRequest?, hscoring, himmediate]
  cases effect.kind <;> rfl

/-- **The two shapes of compiled effects.** An effect that happens at a trigger is compiled inside
scoring and outside from the same storage: it claims the same slot, declares the same variables,
and leaves the same storage behind. Its bodies differ in their blocks alone, and in the message,
which the return table shows inside scoring. Their runs come to the same, from every state that
is poised for them. -/
theorem exec_compile_sameRun (setting : Setting) (effect : Effect) {scoring immediate : Trigger}
    (hscoring : scoring.triggerClass = .scoring)
    (himmediate : immediate.triggerClass = .immediate)
    (hkind : effect.kind.hasShape .scoring = true) {st : Storage} (hst : st.Reachable) :
    ∃ deferred atOnce vars final,
      (effect.compile setting scoring).run st =
        (.ok ⟨effect.id, effect.kind.tag, deferred, vars⟩, final) ∧
      (effect.compile setting immediate).run st =
        (.ok ⟨effect.id, effect.kind.tag, atOnce, vars⟩, final) ∧
      effect.slotRequest? immediate = effect.slotRequest? scoring ∧
      st.Serves (effect.slotRequest? scoring) vars final ∧
      (∃ block, deferred.blocks = .beforeReturn block) ∧
      (∃ block, atOnce.blocks = .callback block) ∧
      deferred = { atOnce with blocks := deferred.blocks, message := deferred.message } ∧
      atOnce.message = none ∧
      ∀ {R : Type} {host : Host (Memory R)} {s : State (Memory R)}, ShapeLaws host → Poised s →
        deferred.SameRun atOnce host s := by
  obtain ⟨deferred, atOnce, final, hshapes, hdeferred, hatOnce⟩ := exists_shapes setting hkind hst
  rw [← hscoring] at hdeferred
  rw [← himmediate] at hatOnce
  have hrun := run_compile_of_run_code setting hdeferred
  have hrun' := run_compile_of_run_code setting hatOnce
  have hserves : st.Serves (effect.slotRequest? scoring)
      (final.declaredSince st.declared.length) final := by
    rw [← hscoring] at hkind
    obtain ⟨code, t, hcompile, -, -, hmakes⟩ := run_compile_of_hasShape setting hkind hst
    obtain ⟨hcode, rfl⟩ := Prod.mk.inj (hrun.symm.trans hcompile)
    obtain rfl := Except.ok.inj hcode
    exact hmakes.serves
  obtain ⟨hblocks, hblocks', hbody, hmessage⟩ := hshapes.body
  exact ⟨deferred, atOnce, _, final, hrun, hrun', slotRequest?_eq hscoring himmediate effect,
    hserves, hblocks, hblocks', hbody, hmessage, fun laws hs => hshapes.sameRun laws hs⟩

/-- At the start of a round, as many hands more as are left come to the same in both shapes. -/
theorem exec_compile_sameRun_recordedStart :
    ∃ deferred atOnce vars final,
      (moreHands.compile plainSetting .handPlayed).run {} =
        (.ok ⟨moreHands.id, "edit_hand", deferred, vars⟩, final) ∧
      (moreHands.compile plainSetting .blindSelected).run {} =
        (.ok ⟨moreHands.id, "edit_hand", atOnce, vars⟩, final) ∧
      deferred.SameRun atOnce recordingGame recordedStart ∧
      (deferred.exec recordingGame recordedStart).isSome = true := by
  have hscoring : Trigger.handPlayed.triggerClass = .scoring := rfl
  have himmediate : Trigger.blindSelected.triggerClass = .immediate := rfl
  have hclass : Trigger.handPlayed.triggerClass ≠ .passive := by decide
  have hkind : moreHands.kind = .editHand { value := handsLeftQuantity } := rfl
  obtain ⟨deferred, atOnce, vars, final, hdeferred, hatOnce, -, -, -, -, -, -, hsame⟩ :=
    exec_compile_sameRun plainSetting moreHands hscoring himmediate rfl .empty
  have hbody : deferred = HandChange.triggered { value := handsLeftQuantity } .scoring moreHands
      (moreHands.bound plainSetting handsRequest {} handsLeftQuantity) := by
    obtain ⟨code, t, hrun, hcode⟩ := exists_compile_editHand plainSetting hkind hclass .empty
    obtain ⟨heq, -⟩ := Prod.mk.inj (hdeferred.symm.trans hrun)
    obtain rfl := Except.ok.inj heq
    exact hcode
  refine ⟨deferred, atOnce, vars, final, hdeferred, hatOnce,
    hsame recordingGame_laws poised_recordedStart, ?_⟩
  rw [hbody]
  decide +kernel

end Effect

end JokerScript
