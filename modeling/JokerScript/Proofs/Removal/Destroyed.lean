import JokerScript.Proofs.Removal.Collected
import JokerScript.Proofs.Triggered.Compiled

/-!
# Destroyed Consumables

If any consumables were collected, the game draws one of them, an event is scheduled that dissolves
it, and a status text is shown. The drawn consumable stands in a local variable, which the function
of the event captures, so that it is still known when the event runs.

Inside scoring and outside the block is the same: the text is shown at once.

## Main definitions

* `Notices`, `Notices.Adds` — pending events and status texts, and how they change.
* `RemovalLaws`, `RemovalReady` — the answers of the game, and states for the code of a removal.
* `Dissolves` — the functions that dissolve a card.

## Main results

* `ConsumableRemoval.exec_destroy` — one of the collected consumables is destroyed.
* `ConsumableRemoval.exec_compile_destroys` — the run of the code of a removal.
-/

namespace JokerScript

open Lua

variable {W : Type} {host : Host W} {s t u : State W}

/-! ### What the game keeps -/

/-- The **events and texts** that the game keeps beside its tables. -/
structure Notices (W : Type) where
  /-- The functions that are still to be run, in order. -/
  pending : W → List Value
  /-- The status texts, in the order in which they were shown. -/
  texts : W → List Value

namespace Notices

/-- From the first state to the second, the functions are scheduled and the texts are shown. -/
structure Adds (notices : Notices W) (s t : State W) (fs texts : List Value) : Prop where
  pending : notices.pending t.world = notices.pending s.world ++ fs
  texts : notices.texts t.world = notices.texts s.world ++ texts

variable {notices : Notices W} {fs gs xs ys : List Value}

theorem adds_nil (notices : Notices W) (h : t.world = s.world) : notices.Adds s t [] [] :=
  ⟨by rw [h, List.append_nil], by rw [h, List.append_nil]⟩

/-- Only what the game keeps beside its tables matters. -/
theorem Adds.congr {s' t' : State W} (h : notices.Adds s t fs xs) (hs : s'.world = s.world)
    (ht : t'.world = t.world) : notices.Adds s' t' fs xs :=
  ⟨by rw [hs, ht, h.pending], by rw [hs, ht, h.texts]⟩

theorem Adds.trans (h : notices.Adds s t fs xs) (h' : notices.Adds t u gs ys) :
    notices.Adds s u (fs ++ gs) (xs ++ ys) :=
  ⟨by rw [h'.pending, h.pending, List.append_assoc],
    by rw [h'.texts, h.texts, List.append_assoc]⟩

end Notices

/-- The **laws** of a game that draws an element of a list, takes events, and shows texts. Its
functions leave the tables alone that were there. -/
structure RemovalLaws (host : Host W) (notices : Notices W) : Prop where
  seed (name : String) (s : State W) :
    ∃ v t, host.call "pseudoseed" [.str name] s = some (v, t) ∧ s.Grows t ∧
      notices.Adds s t [] []
  element {s : State W} {a : ℕ} (seed : Value) (h : (s.tables a).items ≠ []) :
    ∃ v t, host.call "pseudorandom_element" [.table a, seed] s = some (v, t) ∧
      v ∈ (s.tables a).items ∧ s.Grows t ∧ notices.Adds s t [] []
  event {s : State W} {a : ℕ} {f : Value} (h : (s.tables a).field "func" = f) :
    ∃ e t, host.call "Event" [.table a] s = some (.table e, t) ∧ s.Grows t ∧
      (t.tables e).field "func" = f ∧ notices.Adds s t [] []
  addEvent {s : State W} {manager : Value} {e : ℕ} {f : Value}
    (h : s.read "G.E_MANAGER" = some manager) (hevent : (s.tables e).field "func" = f) :
    ∃ v t, host.method manager "add_event" [.table e] s = some (v, t) ∧ s.Grows t ∧
      notices.Adds s t [f] []
  statusText (card : Value) (a : ℕ) (s : State W) :
    ∃ v t, host.call "card_eval_status_text" [card, .str "extra", .nil, .nil, .nil, .table a] s =
        some (v, t) ∧
      s.Grows t ∧ notices.Adds s t [] [(s.tables a).field "message"]

/-! ### States -/

/-- What the code of a removal takes from the global variables. -/
def removalGlobals : List String :=
  ["G", "ipairs", "table", "pseudorandom_element", "pseudoseed", "Event", "card_eval_status_text"]

/-- A state that is **ready** for the code of a removal, with the consumables that are held. -/
structure RemovalReady (s : State W) (cards : List HeldConsumable) : Prop where
  sound : s.Sound
  visible : ∀ name ∈ removalGlobals, s.locals.lookup name = none
  context : ∃ a, s.read "context" = some (.table a)
  colours : ∃ a, s.read "G.C" = some (.table a)
  manager : ∃ v, s.read "G.E_MANAGER" = some v
  held : ∃ a, s.read "G.consumeables.cards" = some (.table a) ∧
    (s.tables a).items = cards.map HeldConsumable.value
  shown : ∀ c ∈ cards, c.ShownBy s

/-! ### Dissolving -/

/-- The function **dissolves** the card, and does nothing else. -/
def Dissolves (host : Host W) (card f : Value) : Prop :=
  ∃ captured, ∀ s : State W, f.run host [] s =
    (host.method card "start_dissolve" [] (s.withLocals captured)).map fun o =>
      (.bool true, o.2.withLocals s.locals)

namespace ConsumableRemoval

/-- The function of an event that dissolves the drawn card. -/
def dissolving : Block :=
  [.run (.method (.path chosen) "start_dissolve" []), .returning (.bool true)]

theorem dissolves_closure (host : Host W) {card : Value} {captured : List (String × Value)}
    (h : captured.lookup chosen = some card) :
    Dissolves host card (.closure [] dissolving captured) := by
  refine ⟨captured, fun s => ?_⟩
  have hread : (s.withLocals captured).read chosen = some card := by
    have hlookup : (s.withLocals captured).locals.lookup chosen = some card := h
    rw [State.read_of_dotFree _ (by decide), State.root, hlookup, Option.getD_some]
  have heval : (Expr.method (.path chosen) "start_dissolve" []).eval host
      (s.withLocals captured) = host.method card "start_dissolve" [] (s.withLocals captured) :=
    eval_method (eval_path hread) (evalArgs_nil _)
  have hbody : execBlock host dissolving (s.withLocals captured) =
      andThen (((Expr.method (.path chosen) "start_dissolve" []).eval host
        (s.withLocals captured)).bind fun o => some (.next, o.2))
        (execBlock host [.returning (.bool true)]) := rfl
  have hrun : (Value.closure [] dissolving captured).run host [] s =
      (returned captured.length (execBlock host dissolving (s.withLocals captured))).map
        fun o => (o.1, o.2.withLocals s.locals) := rfl
  rw [hrun, hbody, heval]
  cases host.method card "start_dissolve" [] (s.withLocals captured) <;> rfl

/-! ### Destroying -/

section Destroy

variable {notices : Notices W} (laws : RemovalLaws host notices) {cards : List HeldConsumable}
  {added : List (String × Value)}

/-- A state that comes up after some local variables were added to a ready one. -/
structure Added (cards : List HeldConsumable) (added : List (String × Value)) (s t : State W) :
    Prop where
  ready : RemovalReady s cards
  names : ∀ x ∈ added, x.1 ∈ [targets, chosen]
  changes : s.ChangesOnly added [] t

namespace Added

theorem lookup (h : Added cards added s t) {name : String} (hname : name ∉ [targets, chosen]) :
    added.lookup name = none := by
  rw [List.lookup_eq_none_iff]
  intro x hx
  simpa using fun heq : name = x.1 => hname (heq ▸ h.names x hx)

theorem grows (h : Added cards added s t) (htu : t.Grows u) : Added cards added s u :=
  { h with changes := h.changes.grows htu }

theorem push (h : Added cards added s t) {name : String} (hname : name ∈ [targets, chosen])
    (v : Value) : Added cards ((name, v) :: added) s (t.push name v) :=
  { ready := h.ready
    names := List.forall_mem_cons.mpr ⟨hname, h.names⟩
    changes := h.changes.push name v }

theorem visible (h : Added cards added s t) {name : String} (hname : name ∈ removalGlobals) :
    t.locals.lookup name = none := by
  have hnot : ∀ n ∈ removalGlobals, n ∉ [targets, chosen] := by decide
  rw [h.changes.lookup (h.lookup (hnot name hname)), h.ready.visible name hname]

theorem read (h : Added cards added s t) {p : String} (hp : pathRoot p ∉ [targets, chosen]) :
    t.read p = s.read p :=
  h.changes.read h.ready.sound (h.lookup hp) (by simp)

/-- A call of a function of the game by its name. -/
theorem eval_apply (h : Added cards added s t) {name : String} (hname : name ∈ removalGlobals)
    (hdot : DotFree name) {args : List Expr} {vs : List Value}
    (hargs : evalArgs host args t = some (vs, u)) :
    (Expr.apply name args).eval host t = host.apply name vs u :=
  eval_apply_dotFree hdot (h.visible hname) hargs

end Added

include laws

/-- A scheduled function captures the visible variables. -/
theorem exec_scheduled (h : Added cards added s t) (body : Block) :
    ∃ u, (scheduled body).exec host t = some (.next, u) ∧ t.Grows u ∧
      notices.Adds t u [.closure [] body t.locals] [] := by
  obtain ⟨manager, hmanager⟩ := h.ready.manager
  let table : Table :=
    { field := Function.update (fun _ => .nil) "func" (.closure [] body t.locals) }
  have hrecord : (Expr.record [("func", .thunk body)]).eval host t = some (t.alloc table) := rfl
  have hfunc : ((t.alloc table).2.tables t.fresh).field "func" = .closure [] body t.locals := by
    simp [State.alloc, table]
  obtain ⟨e, t₁, hcall, hgrows₁, hevent, hadds₁⟩ := laws.event hfunc
  have hgrown : t.Grows t₁ := (t.grows_alloc table).trans hgrows₁
  have happly : (Expr.apply "Event" [.record [("func", .thunk body)]]).eval host t =
      some (.table e, t₁) :=
    (h.eval_apply (by decide) (by decide) (evalArgs_cons hrecord (evalArgs_nil _))).trans hcall
  have hread {u : State W} (hu : t.Grows u) : u.read "G.E_MANAGER" = some manager :=
    ((h.grows hu).read (by decide)).trans hmanager
  obtain ⟨v, u, hadd, hgrows₂, hadds₂⟩ := laws.addEvent (hread hgrown) hevent
  have hadds := hadds₁.trans hadds₂
  have hmethod : (Expr.method (.path "G.E_MANAGER") "add_event"
      [.apply "Event" [.record [("func", .thunk body)]]]).eval host t = some (v, u) :=
    (eval_method (eval_path (hread (.refl t))) (evalArgs_cons happly (evalArgs_nil _))).trans hadd
  exact ⟨u, exec_run hmethod, hgrown.trans hgrows₂, hadds.pending, hadds.texts⟩

/-- **A status text** is shown. -/
theorem exec_statusText (h : Added cards added s t) {message : Expr} {text : Value}
    (hmessage : message.eval host t = some (text, t)) :
    ∃ u, (statusText message .red).exec host t = some (.next, u) ∧ t.Grows u ∧
      notices.Adds t u [] [text] := by
  obtain ⟨a, ha⟩ := h.ready.context
  obtain ⟨b, hb⟩ := h.ready.colours
  have hcontext : t.read "context" = some (.table a) := (h.read (by decide)).trans ha
  have hcolours : t.read "G.C" = some (.table b) := (h.read (by decide)).trans hb
  obtain ⟨card, table, htext, hexec⟩ :=
    exists_exec_statusText .red hcontext (h.visible (by decide)) hmessage hcolours
  obtain ⟨v, u, hcall, hgrows, hadds⟩ := laws.statusText card t.fresh (t.alloc table).2
  rw [htext] at hadds
  exact ⟨u, hexec hcall, (t.grows_alloc table).trans hgrows, hadds.pending, hadds.texts⟩

/-- One of the collected values is **drawn**. -/
theorem exec_draw (seed : String) (h : Added cards added s t) {a : ℕ}
    (htargets : t.read targets = some (.table a)) (ha : a < t.fresh)
    (hitems : (t.tables a).items ≠ []) :
    ∃ v u, (Stmt.letLocal chosen (.apply "pseudorandom_element"
          [.path targets, .apply "pseudoseed" [.str seed]])).exec host t =
        some (.next, u.push chosen v) ∧
      v ∈ (t.tables a).items ∧ t.Grows u ∧ notices.Adds t u [] [] ∧
      ∃ r t', host.call "pseudorandom_element" [.table a, r] t' = some (v, u) ∧
        t'.tables a = t.tables a := by
  obtain ⟨r, t', hseed, hgrows, hadds⟩ := laws.seed seed t
  have htable : t'.tables a = t.tables a := hgrows.tables a ha
  obtain ⟨v, u, helement, hmem, hgrows', hadds'⟩ := laws.element r (htable ▸ hitems)
  have happly : (Expr.apply "pseudoseed" [.str seed]).eval host t = some (r, t') :=
    (h.eval_apply (by decide) (by decide)
      (evalArgs_cons (eval_str ..) (evalArgs_nil t))).trans hseed
  have hdraw : (Expr.apply "pseudorandom_element"
      [.path targets, .apply "pseudoseed" [.str seed]]).eval host t = some (v, u) :=
    (h.eval_apply (by decide) (by decide) (evalArgs_cons (eval_path htargets)
      (evalArgs_cons happly (evalArgs_nil t')))).trans helement
  exact ⟨v, u, exec_letLocal hdraw, htable ▸ hmem, hgrows.trans hgrows', hadds.trans hadds',
    r, t', helement, htable⟩

/-- **One of the collected values is destroyed**: it is drawn, the only event that is scheduled
dissolves it, and one text is shown. -/
theorem exec_destroy (seed usual : String) (effect : Effect)
    (h : Added cards added s t) {a : ℕ} (htargets : t.read targets = some (.table a))
    (ha : a < t.fresh) (hitems : (t.tables a).items ≠ []) :
    ∃ v f u, closeBlock t.locals.length
          (execBlock host (destroy seed (effect.messageOr (.str usual))) t) = some (.next, u) ∧
      t.Grows u ∧ v ∈ (t.tables a).items ∧ Dissolves host v f ∧
      notices.Adds t u [f] [.str (effect.textOr usual)] ∧
      ∃ r t' t'', host.call "pseudorandom_element" [.table a, r] t' = some (v, t'') ∧
        t'.tables a = t.tables a := by
  obtain ⟨v, t₁, hdraw, hmem, hgrows₁, hadds₁, r, t', hcall, htable⟩ :=
    exec_draw laws seed h htargets ha hitems
  have hpushed : Added cards ((chosen, v) :: added) s (t₁.push chosen v) :=
    (h.grows hgrows₁).push (by simp) v
  obtain ⟨t₂, hevent, hgrows₂, hadds₂⟩ := exec_scheduled laws hpushed dissolving
  obtain ⟨t₃, htext, hgrows₃, hadds₃⟩ := exec_statusText laws (hpushed.grows hgrows₂)
    (eval_messageOr effect (eval_str usual t₂))
  obtain ⟨u, rfl, hu⟩ := (hgrows₂.trans hgrows₃).exists_of_push
  have hlocals : t.locals.length = u.locals.length := by rw [hu.locals, hgrows₁.locals]
  refine ⟨v, .closure [] dissolving (t₁.push chosen v).locals, u, ?_, hgrows₁.trans hu, hmem,
    dissolves_closure host (List.lookup_cons_self ..), ?_, r, t', _, hcall, htable⟩
  · have hblock : execBlock host (destroy seed (effect.messageOr (.str usual))) t =
        some (.next, u.push chosen v) := by
      rw [destroy, execBlock_cons_of_next hdraw]
      exact (execBlock_cons_of_next hevent).trans (execBlock_cons_of_next htext)
    rw [hblock, hlocals]
    exact congrArg (fun w => some (Flow.next, w))
      ((State.close_push u chosen v le_rfl).trans (State.close_length u))
  · have hall := hadds₁.trans ((hadds₂.trans hadds₃).congr rfl rfl)
    exact ⟨hall.pending, hall.texts⟩

omit laws in
/-- The table of collected values. -/
theorem items_collected (s : State W) (items : List Value) :
    ((collected s items).tables s.fresh).items = items := by
  simp [collected, State.push, State.alloc]

omit laws in
/-- After some values were collected, nothing else has changed. -/
theorem added_collected (h : RemovalReady s cards) (items : List Value) :
    Added cards [(targets, .table s.fresh)] s (collected s items) where
  ready := h
  names := by simp
  changes := ((State.ChangesOnly.refl s []).grows (s.grows_alloc { items })).push _ _

omit laws in
/-- The consumables that are asked for are collected first. -/
theorem execBlock_block (naming : Naming) (effect : Effect) (params : ConsumableRemoval)
    (h : RemovalReady s cards) :
    let picked := cards.filter params.target.picks
    let t := collected s (picked.map HeldConsumable.value)
    execBlock host (params.block naming effect) s =
      if picked = [] then some (.next, t)
      else closeBlock t.locals.length (execBlock host
        (destroy (naming.seed "destroy_consumable" effect.id.text)
          (effect.messageOr (.str "Destroyed Consumable!"))) t) := by
  intro picked t
  obtain ⟨b, hheld, hitems⟩ := h.held
  have hcollect : execBlock host _ s = some (.next, t) :=
    exec_collecting params.target (fun name hname => h.visible name (by revert name; decide))
      (((added_collected h []).read (by decide)).trans hheld) (h.sound.read hheld) hitems h.shown
  have htargets : t.read targets = some (.table s.fresh) := State.read_push_self _ _ (by decide)
  have hlength : ((Expr.path targets).length.gt .zero).eval host t =
      some (.bool (decide (0 < picked.length)), t) := by
    refine eval_binary (by decide) (eval_unary (eval_path htargets) rfl) (eval_number _ _) ?_
    rw [items_collected, List.length_map, Number.literalValue_of_isZero rfl]
    simp [BinaryOp.apply, BinaryOp.onNumbers?]
  have hblock : execBlock host (params.block naming effect) s = _ :=
    (execBlock_append_of_next hcollect).trans
      ((execBlock_singleton _ _).trans (exec_ifThen _ hlength))
  rw [hblock, Value.truthy_bool]
  cases hpicked : picked with
  | nil => rfl
  | cons c rest => rw [if_pos (by simp), if_neg (by simp)]

/-- **The run of the block.** It collects the consumables that are asked for. If there are none, it
does nothing else; otherwise it destroys one of them. -/
theorem exec_block (naming : Naming) (effect : Effect) (params : ConsumableRemoval)
    (h : RemovalReady s cards) :
    let picked := cards.filter params.target.picks
    ∃ u a, execBlock host (params.block naming effect) s = some (.next, u) ∧
      s.ChangesOnly [(targets, .table a)] [] u ∧ s.fresh ≤ a ∧
      (u.tables a).items = picked.map HeldConsumable.value ∧
      (picked = [] → notices.Adds s u [] []) ∧
      (picked ≠ [] → ∃ c ∈ picked, ∃ f,
        notices.Adds s u [f] [.str (effect.textOr "Destroyed Consumable!")] ∧
        Dissolves host c.value f ∧
        ∃ seed t t', host.call "pseudorandom_element" [.table a, seed] t = some (c.value, t') ∧
          (t.tables a).items = picked.map HeldConsumable.value) := by
  intro picked
  have hblock : execBlock host (params.block naming effect) s = _ :=
    execBlock_block naming effect params h
  have hadded := added_collected h (picked.map HeldConsumable.value)
  have hitems := items_collected s (picked.map HeldConsumable.value)
  by_cases hpicked : picked = []
  · rw [if_pos hpicked] at hblock
    exact ⟨_, s.fresh, hblock, hadded.changes, le_rfl, hitems, fun _ => notices.adds_nil rfl,
      fun hne => absurd hpicked hne⟩
  · rw [if_neg hpicked] at hblock
    have hbelow : s.fresh < (collected s (picked.map HeldConsumable.value)).fresh :=
      Nat.lt_succ_self s.fresh
    obtain ⟨v, f, u, hdestroy, hgrows, hmem, hdissolves, hadds, r, t, t', hcall, htable⟩ :=
      exec_destroy laws (naming.seed "destroy_consumable" effect.id.text) "Destroyed Consumable!"
        effect hadded (State.read_push_self _ _ (by decide)) hbelow
        (by rw [hitems]; simpa using hpicked)
    rw [hitems, List.mem_map] at hmem
    obtain ⟨c, hc, rfl⟩ := hmem
    refine ⟨u, s.fresh, hblock.trans hdestroy, (hadded.grows hgrows).changes, le_rfl, ?_,
      fun hempty => absurd hempty hpicked, fun _ => ⟨c, hc, f, hadds.congr rfl rfl, hdissolves,
        r, t, t', hcall, by rw [htable, hitems]⟩⟩
    rw [hgrows.tables _ hbelow, hitems]

end Destroy

/-! ### Compiled removals -/

/-- The code of a removal is its block, inside scoring and outside, and has no message. -/
theorem exists_compile_destroyConsumable (setting : Setting) {trigger : Trigger} {effect : Effect}
    {params : ConsumableRemoval} {st : Storage} (hst : st.Reachable)
    (hkind : effect.kind = .destroyConsumable params)
    (hclass : trigger.triggerClass ≠ .passive) :
    ∃ code final, (effect.compile setting trigger).run st = (.ok code, final) ∧
      code.body.message = none ∧
      ∀ {W : Type} (host : Host W) (s : State W),
        code.body.exec host s = execBlock host (params.block setting.naming effect) s := by
  have hshape : effect.kind.hasShape trigger.triggerClass = true := by
    rw [hkind]
    exact bne_iff_ne.mpr hclass
  obtain ⟨code, final, hrun, hwrites⟩ := Effect.exists_compile_writes setting hshape hst
  refine ⟨code, final, hrun, ?_⟩
  generalize code.body = body at hwrites
  cases hwrites with
  | removal hkind' | removalAtOnce hkind' =>
      obtain rfl := EffectKind.destroyConsumable.inj (hkind.symm.trans hkind')
      exact ⟨rfl, fun _ _ => rfl⟩
  | creation hkind' | creationAtOnce hkind' | handChange hkind' | blindChange hkind'
  | heldHandChange hkind' | discount hkind' | rerollGrant hkind' | suitPair hkind' =>
      cases hkind.symm.trans hkind'

/-- **The code of a removal**, inside scoring and outside, collects just the consumables that are
asked for. If there are none, no event is scheduled and nothing is shown. Otherwise the game draws
one of them, the only event that is scheduled dissolves it, and one text is shown. -/
theorem exec_compile_destroys (setting : Setting) {trigger : Trigger} (effect : Effect)
    {params : ConsumableRemoval} {st : Storage} (hst : st.Reachable)
    (hkind : effect.kind = .destroyConsumable params)
    (hclass : trigger.triggerClass ≠ .passive) :
    ∃ code final, (effect.compile setting trigger).run st = (.ok code, final) ∧
      code.body.message = none ∧
      ∀ {W : Type} {host : Host W} {notices : Notices W} {s : State W}
        {cards : List HeldConsumable}, RemovalLaws host notices → RemovalReady s cards →
        let picked := cards.filter params.target.picks
        ∃ u a, code.body.exec host s = some (.next, u) ∧ u.read targets = some (.table a) ∧
          s.fresh ≤ a ∧ (u.tables a).items = picked.map HeldConsumable.value ∧
          s.ChangesOnly [(targets, .table a)] [] u ∧
          (picked = [] → notices.Adds s u [] []) ∧
          (picked ≠ [] → ∃ c ∈ picked, ∃ f,
            notices.Adds s u [f] [.str (effect.textOr "Destroyed Consumable!")] ∧
            Dissolves host c.value f ∧
            ∃ seed t t', host.call "pseudorandom_element" [.table a, seed] t =
                some (c.value, t') ∧
              (t.tables a).items = picked.map HeldConsumable.value) := by
  obtain ⟨code, final, hrun, hmessage, hbody⟩ :=
    exists_compile_destroyConsumable setting hst hkind hclass
  refine ⟨code, final, hrun, hmessage, ?_⟩
  intro W host notices s cards laws h picked
  obtain ⟨u, a, hexec, hchanges, hnew, hitems, hnone, hsome⟩ :=
    exec_block laws setting.naming effect params h
  have hread : u.read targets = some (.table a) := by
    rw [State.read_of_dotFree _ (by decide), State.root, hchanges.locals, List.singleton_append,
      List.lookup_cons_self, Option.getD_some]
  exact ⟨u, a, (hbody host s).trans hexec, hread, hnew, hitems, hchanges, hnone, hsome⟩

/-! ### A small game -/

/-- What a small game keeps beside its tables. -/
structure Shelf where
  pending : List Value := []
  texts : List Value := []

/-- The events and texts of the small game. -/
def Shelf.notices : Notices Shelf := ⟨pending, texts⟩

/-- A **small game**, which draws the last element of a list. -/
def shelfGame : Host Shelf where
  call name args s :=
    match name, args with
    | "pseudoseed", _ => some (.number (.finite 0), s)
    | "pseudorandom_element", [.table a, _] => (s.tables a).items.getLast?.map fun v => (v, s)
    | "Event", [.table a] => some (.table a, s)
    | "card_eval_status_text", [_, _, _, _, _, .table a] =>
        let texts := s.world.texts ++ [(s.tables a).field "message"]
        some (.nil, { s with world := { s.world with texts } })
    | _, _ => none
  method _ name args s :=
    match name, args with
    | "add_event", [.table e] =>
        let pending := s.world.pending ++ [(s.tables e).field "func"]
        some (.nil, { s with world := { s.world with pending } })
    | "start_dissolve", _ => some (.nil, s)
    | _, _ => none

theorem shelfGame_laws : RemovalLaws shelfGame Shelf.notices where
  seed _ s := ⟨_, s, rfl, .refl s, Shelf.notices.adds_nil rfl⟩
  element {s a} seed h := by
    have hlast : (s.tables a).items.getLast? = some ((s.tables a).items.getLast h) :=
      List.getLast?_eq_some_getLast h
    exact ⟨_, s, by simp [shelfGame, hlast], List.getLast_mem h, .refl s,
      Shelf.notices.adds_nil rfl⟩
  event {s a _} h := ⟨a, s, rfl, .refl s, h, Shelf.notices.adds_nil rfl⟩
  addEvent {s _ e f} _ hevent :=
    ⟨_, _, rfl, s.grows_withWorld _, by rw [← hevent]; rfl, (List.append_nil _).symm⟩
  statusText _ _ s := ⟨_, _, rfl, s.grows_withWorld _, (List.append_nil _).symm, rfl⟩

/-- The fields of the tables of a shelf: those of `G`, of the area of the consumables, of their
list, of the colours, and then those of two consumables. -/
def shelfFields : List (List (String × Value)) :=
  [[("consumeables", .table 1), ("C", .table 3)],
    [("cards", .table 2)],
    [],
    [],
    [("ability", .table 5), ("config", .table 6)],
    [("set", .str "Tarot")],
    [("center", .table 7)],
    [("key", .str "c_fool")],
    [("ability", .table 9), ("config", .table 10)],
    [("set", .str "Planet")],
    [("center", .table 11)],
    [("key", .str "c_pluto")]]

/-- The two consumables. -/
def shelved : List HeldConsumable :=
  [⟨4, 5, 6, 7, .str "Tarot", .str "c_fool"⟩, ⟨8, 9, 10, 11, .str "Planet", .str "c_pluto"⟩]

/-- A state with two consumables. -/
def shelf : State Shelf where
  globals name := ([("G", .table 0), ("context", .table 3)].lookup name).getD .nil
  tables a :=
    { field := fun name => ((shelfFields.getD a []).lookup name).getD .nil
      items := if a = 2 then shelved.map HeldConsumable.value else [] }
  fresh := shelfFields.length
  world := {}

theorem removalReady_shelf : RemovalReady shelf shelved where
  sound := by
    have hfields : ∀ a < shelfFields.length, ∀ p ∈ shelfFields.getD a [],
        p.2.IsBelow shelfFields.length := by decide
    exact ⟨Value.getD_lookup_of_forall (P := Value.IsBelow _) trivial (by decide),
      fun a ha => Value.getD_lookup_of_forall (P := Value.IsBelow _) trivial (hfields a ha)⟩
  visible _ _ := rfl
  context := ⟨3, rfl⟩
  colours := ⟨3, rfl⟩
  manager := ⟨.nil, rfl⟩
  held := ⟨2, rfl, rfl⟩
  shown := by
    simp only [shelved, List.forall_mem_cons]
    exact ⟨⟨rfl, rfl, rfl, rfl, rfl, by decide⟩, ⟨rfl, rfl, rfl, rfl, rfl, by decide⟩,
      List.forall_mem_nil _⟩

/-- The removal of one kind of planets. -/
def plutoRemoval : Effect :=
  { id := ⟨"destroy"⟩, kind := .destroyConsumable ⟨.ofSet .planet (some "pluto")⟩ }

/-- Of the two consumables on the shelf, the one that is asked for is destroyed. -/
theorem exec_compile_destroys_shelf :
    ∃ code final u a f, (plutoRemoval.compile plainSetting .handPlayed).run {} =
        (.ok code, final) ∧
      code.body.exec shelfGame shelf = some (.next, u) ∧ u.read targets = some (.table a) ∧
      (u.tables a).items = [.table 8] ∧ u.world.pending = [f] ∧
      u.world.texts = [.str "Destroyed Consumable!"] ∧ Dissolves shelfGame (.table 8) f := by
  have hclass : Trigger.handPlayed.triggerClass ≠ .passive := by decide
  obtain ⟨code, final, hrun, -, hexec⟩ :=
    exec_compile_destroys plainSetting plutoRemoval .empty rfl hclass
  have hpicked : shelved.filter (ConsumableChoice.ofSet .planet (some "pluto")).picks =
      [⟨8, 9, 10, 11, .str "Planet", .str "c_pluto"⟩] := rfl
  obtain ⟨u, a, hu, hread, -, hitems, -, -, hsome⟩ := hexec shelfGame_laws removalReady_shelf
  rw [hpicked] at hitems hsome
  obtain ⟨c, hc, f, hadds, hdissolves, -⟩ := hsome (by simp)
  obtain rfl := List.mem_singleton.mp hc
  exact ⟨code, final, u, a, f, hrun, hu, hread, hitems, hadds.pending, hadds.texts, hdissolves⟩

end ConsumableRemoval

end JokerScript
