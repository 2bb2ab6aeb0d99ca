import JokerScript.Proofs.Held.Playable

/-!
# Blocks of Held Changes

One law for each block, from playable states to playable ones. Gaining the joker changes the
number of hands as its operation says, and records the change; losing it takes back what is
recorded, and clears the record. A loss without a record changes nothing at all.

## Main definitions

* `HandOperation.gained` — the number of hands after the joker is gained.
* `HeldChange.LeavesOthers` — what a block leaves alone.

## Main results

* `HeldChange.exists_onGain`, `HeldChange.exists_onLoss`, `HeldChange.exists_onLoss_set` — the
  blocks.
-/

namespace JokerScript

open Lua

variable {W : Type} {host : Host W} {final : Storage} {changes : List HeldChange}
  {s t u : State W}

/-! ### Operations -/

namespace HandOperation

/-- The number of hands after a gain at `q` hands, for a quantity that is worth `v`. -/
def gained (q v : ℚ) : HandOperation → ℚ
  | add => q + v
  | subtract => max 1 (q - v)
  | set => v

/-- A change of the number of hands, as the record of the operation counts it, and back: a
subtraction records how many hands were taken. -/
def signed (a : ℚ) : HandOperation → ℚ
  | add | set => a
  | subtract => -a

theorem signed_signed (op : HandOperation) (a : ℚ) : op.signed (op.signed a) = a := by
  cases op with
  | add => rfl
  | subtract => exact neg_neg a
  | set => rfl

theorem signed_zero (op : HandOperation) : op.signed 0 = 0 := by
  cases op with
  | add => rfl
  | subtract => exact neg_zero
  | set => rfl

end HandOperation

/-! ### Values -/

/-- Random numbers between finite bounds are finite, and drawing one changes nothing but the
stream. -/
def Lua.Host.DrawsFinite (host : Host W) : Prop :=
  ∀ (seed : String) (min max : ℚ) (s : State W), ∃ (q : ℚ) (w : W),
    host.call "pseudorandom" [.str seed, .number (.finite min), .number (.finite max)] s =
      some (.number (.finite q), { s with world := w })

theorem apply_sub_finite (a b : ℚ) :
    BinaryOp.sub.apply (.number (.finite a)) (.number (.finite b)) =
      some (.number (.finite (a - b))) := by
  rw [← ExactNumber.finite_sub]
  rfl

/-- Everything that a quantity reads is in `t` as in `s`. -/
structure SameReads (final : Storage) (drawn : String) (s t : State W) : Prop where
  stored : ∀ name, final.CanRead name → t.read (storedPath name) = s.read (storedPath name)
  game : ∀ p ∈ GameState.readings, ∀ n, p.2.ShowsIn s n → p.2.ShowsIn t n
  /-- The local variable that holds a random number. -/
  drawn : t.read drawn = s.read drawn

namespace SameReads

variable {drawn : String}

theorem refl (s : State W) : SameReads final drawn s s :=
  ⟨fun _ _ => rfl, fun _ _ _ hn => hn, rfl⟩

theorem push (s : State W) {x : String} (hdrawn : DotFree drawn) (hx : x ∉ reservedRoots)
    (hne : drawn ≠ x) (v : Value) : SameReads final drawn s (s.push x v) := by
  constructor
  case stored =>
    intro name hname
    refine read_push_of_reserved ?_ hx v
    rw [pathRoot_storedPath]
    decide
  case game =>
    intro p hp n hn
    refine hn.push ?_ v
    rw [pathRoot_readings p hp]
    rintro rfl
    exact hx (by decide)
  case drawn =>
    refine State.read_push s v ?_
    rw [pathRoot_of_dotFree hdrawn]
    exact hne

/-- An assignment to a field that no declared variable is called like. -/
theorem wrote {p name : String} {v : Value} (h : Wrote p name v s t) (hdrawn : DotFree drawn)
    (hname : name ∉ final.names) : SameReads final drawn s t := by
  constructor
  case stored =>
    rintro x ⟨hx, hdot⟩
    refine h.stored x hdot ?_
    rintro rfl
    exact hname hx
  case game => exact h.game
  case drawn =>
    rw [State.read_of_dotFree t hdrawn, State.read_of_dotFree s hdrawn, h.root]

end SameReads

/-- The value of a quantity that gives the same number on each reading. -/
theorem Playable.eval_stable (h : Playable final changes s) {r : Resolved}
    (hreads : r.ReadsFrom final) (hstable : r.isStable = true) (drawn : String) :
    ∃ v : ℚ, ∀ t, SameReads final drawn s t →
      r.expr.eval host t = some (.number (.finite v), t) := by
  have hextra : ∀ name, final.CanRead name → ∃ v : ℚ, ∀ t, SameReads final drawn s t →
      (Expr.extra name).eval host t = some (.number (.finite v), t) := by
    intro name hname
    obtain ⟨v, hv⟩ := h.stored name hname
    refine ⟨v, fun t hst => ?_⟩
    rw [extra_eq_path]
    exact eval_path ((hst.stored name hname).trans hv)
  cases r with
  | literal value slot =>
      obtain ⟨name, hslot, hname⟩ := hreads
      obtain rfl := Option.mem_def.mp hslot
      exact hextra name hname
  | gameState e =>
      obtain ⟨v, hv, hexact⟩ := hreads
      obtain ⟨game, hgame⟩ := h.game
      obtain ⟨q, hq⟩ := hexact.worth game
      refine ⟨q, fun t hst => ?_⟩
      rw [← hq]
      exact eval_gameVar (fun p hp => hst.game p hp _ (hgame p hp)) hv
  | range name min max seed => exact absurd hstable (by simp [Resolved.isStable])
  | named name => exact hextra name hreads

/-- The value of a quantity that is drawn at random. -/
theorem Playable.eval_draw (h : Playable final changes s) (hdraws : host.DrawsFinite)
    {r : Resolved} (hreads : r.ReadsFrom final) (hstable : r.isStable = false) :
    ∃ (v : ℚ) (w : W), r.expr.eval host s = some (.number (.finite v), { s with world := w }) := by
  cases r with
  | range name min max seed =>
      obtain ⟨a, ha⟩ := h.stored _ hreads.1
      obtain ⟨b, hb⟩ := h.stored _ hreads.2
      obtain ⟨v, w, hdraw⟩ := hdraws seed a b s
      refine ⟨v, w, ?_⟩
      rw [State.Shows, storedPath_eq] at ha hb
      exact (eval_range (h.visible _ (by simp)) ha hb min max).trans hdraw
  | _ => exact absurd hstable (by simp [Resolved.isStable])

/-! ### The setup of a quantity -/

namespace HeldChange

variable {c : HeldChange}

/-- The local variable that a random number is bound to. -/
def drawn (c : HeldChange) : String := c.slot ++ "_value"

/-- A slot begins as its base does, and so does each form of it. -/
theorem Fits.append_toList (h : c.Fits final) (suffix : String) :
    "hand_change".toList <+: (c.slot ++ suffix).toList := by
  obtain ⟨hlead, -⟩ := form_toList h.slot (Storage.self_mem_forms _ c.slot)
  rw [String.toList_append]
  exact hlead.trans (List.prefix_append _ _)

theorem Fits.dotFree_original (h : c.Fits final) : DotFree c.original :=
  (form_toList h.slot c.original_mem_forms).2

theorem Fits.dotFree_applied (h : c.Fits final) : DotFree c.applied :=
  (form_toList h.slot c.applied_mem_forms).2

theorem Fits.dotFree_drawn (h : c.Fits final) : DotFree c.drawn := by
  obtain ⟨-, hslot⟩ := form_toList h.slot (Storage.self_mem_forms _ c.slot)
  have hsuffix : DotFree "_value" := by decide
  rw [DotFree, drawn, String.toList_append, List.mem_append, not_or]
  exact ⟨hslot, hsuffix⟩

theorem Fits.drawn_notMem (h : c.Fits final) : c.drawn ∉ "hands_before" :: reservedRoots := by
  intro hmem
  have hall : ∀ x ∈ "hands_before" :: reservedRoots, ¬ "hand_change".toList <+: x.toList := by
    decide +kernel
  exact hall _ hmem (h.append_toList "_value")

/-- No form of a slot is the number of hands. -/
theorem Fits.ne_hands (h : c.Fits final) {x : String} (hx : x ∈ c.forms) : x ≠ "hands" := by
  rintro rfl
  exact absurd (form_toList h.slot hx).1 (by simp)

theorem Fits.applied_ne_hands (h : c.Fits final) : c.applied ≠ "hands" :=
  h.ne_hands c.applied_mem_forms

theorem Fits.original_ne_hands (h : c.Fits final) : c.original ≠ "hands" :=
  h.ne_hands c.original_mem_forms

/-- The setup of the quantity has run: the number that its expression gives is at hand as
long as nothing that it reads changes. -/
structure Ready (host : Host W) (final : Storage) (changes : List HeldChange) (c : HeldChange)
    (v : ℚ) (s t : State W) : Prop where
  setup : execBlock host c.quantity.setup s = some (.next, t)
  playable : Playable final changes t
  reads : ∀ p, pathRoot p ∈ reservedRoots → t.read p = s.read p
  value : ∀ u, SameReads final c.drawn t u →
    c.quantity.value.eval host u = some (.number (.finite v), u)

/-- **The setup of a quantity** succeeds, and makes the number of its expression ready. -/
theorem exists_ready (hdraws : host.DrawsFinite) (hfits : ∀ d ∈ changes, d.Fits final)
    (hc : c ∈ changes) (h : Playable final changes s) :
    ∃ (v : ℚ) (w : W) (t : State W),
      c.resolved.expr.eval host s = some (.number (.finite v), { s with world := w }) ∧
      Ready host final changes c v s t := by
  have hfit := hfits c hc
  have horiginal : ∀ d ∈ changes, DotFree d.original := fun d hd => (hfits d hd).dotFree_original
  cases hstable : c.resolved.isStable with
  | true =>
      have hquantity : c.quantity = ⟨c.slot, [], c.resolved.expr⟩ := by
        rw [quantity, BoundQuantity.ofResolved, if_pos hstable]
      obtain ⟨v, hv⟩ := h.eval_stable hfit.reads hstable c.drawn
      refine ⟨v, s.world, s, hv s (.refl s), ?_⟩
      constructor
      case setup =>
        rw [hquantity]
        rfl
      case playable => exact h
      case reads => exact fun _ _ => rfl
      case value =>
        rw [hquantity]
        exact hv
  | false =>
      have hquantity : c.quantity =
          ⟨c.slot, [.letLocal c.drawn c.resolved.expr], .path c.drawn⟩ := by
        rw [quantity, BoundQuantity.ofResolved, if_neg (by rw [hstable]; decide), drawn]
      obtain ⟨v, w, hv⟩ := h.eval_draw hdraws hfit.reads hstable
      have hdrawn : c.drawn ∉ reservedRoots := fun hmem =>
        hfit.drawn_notMem (List.mem_cons_of_mem _ hmem)
      refine ⟨v, w, ({ s with world := w } : State W).push c.drawn (.number (.finite v)), hv, ?_⟩
      constructor
      case setup =>
        rw [hquantity, execBlock_cons_of_next (exec_letLocal hv)]
        rfl
      case playable => exact (h.withWorld w).push horiginal hdrawn _
      case reads => exact fun p hp => read_push_of_reserved hp hdrawn _
      case value =>
        intro u hu
        rw [hquantity]
        refine eval_path (hu.drawn.trans ?_)
        exact State.read_push_self _ _ hfit.dotFree_drawn

/-! ### Writing hands and records -/

theorem roundHands_eq : HandChange.roundHands = "G.GAME.round_resets" ++ "." ++ "hands" := rfl

/-- The number of hands becomes a finite number. -/
theorem exists_wrote_hands (hfits : ∀ d ∈ changes, d.Fits final) (h : Playable final changes s)
    (q : ℚ) :
    ∃ t, Wrote HandChange.roundHands "hands" (.number (.finite q)) s t ∧
      Playable final changes t :=
  h.exists_wrote (fun d hd => (hfits d hd).dotFree_original) roundHands_eq (by decide) (by decide)
    (notMem_sharedFields (Or.inl rfl)) (Or.inl ⟨q, rfl⟩)

/-- A record becomes a finite number, or `nil` if it is not declared. -/
theorem exists_wrote_record (hfits : ∀ d ∈ changes, d.Fits final) (hc : c ∈ changes)
    (h : Playable final changes s) {x : String} (hx : x ∈ c.forms) {v : Value}
    (hv : (∃ q, v = .number (.finite q)) ∨ v = .nil ∧ x ∉ final.names) :
    ∃ t, Wrote (storedPath x) x v s t ∧ Playable final changes t := by
  obtain ⟨hlead, hdot⟩ := form_toList (hfits c hc).slot hx
  have hhands : x ≠ "hands" := (hfits c hc).ne_hands hx
  refine h.exists_wrote (fun d hd => (hfits d hd).dotFree_original) rfl (by decide) hdot
    (notMem_sharedFields (Or.inr hlead)) ?_
  rcases hv with hfinite | ⟨hnil, hnames⟩
  · exact Or.inl hfinite
  · exact Or.inr ⟨hnil, hhands, hnames⟩

/-- The block leaves all variables alone but those of its own slot. -/
def LeavesOthers (c : HeldChange) (s t : State W) : Prop :=
  ∀ x, DotFree x → x ∉ ["hands", c.applied, c.original] →
    t.read (storedPath x) = s.read (storedPath x)

theorem LeavesOthers.trans (hst : c.LeavesOthers s t) (htu : c.LeavesOthers t u) :
    c.LeavesOthers s u :=
  fun x hdot hx => (htu x hdot hx).trans (hst x hdot hx)

theorem LeavesOthers.wrote {p x : String} {v : Value} (h : Wrote p x v s t)
    (hx : x ∈ ["hands", c.applied, c.original]) : c.LeavesOthers s t := by
  intro y hdot hy
  refine h.stored y hdot ?_
  rintro rfl
  exact hy hx

theorem Ready.leavesOthers {v : ℚ} (h : Ready host final changes c v s t) :
    c.LeavesOthers s t := by
  intro x hdot _
  refine h.reads _ ?_
  rw [pathRoot_storedPath]
  decide

/-! ### Gaining the joker -/

/-- The outcome of a gain at `q` hands, when the quantity is worth `v`. -/
structure Gained (c : HeldChange) (v q : ℚ) (s u : State W) : Prop where
  others : c.LeavesOthers s u
  hands : u.Shows HandChange.roundHands (c.operation.gained q v)
  applied : c.operation ≠ .set →
    u.Shows (storedPath c.applied) (c.operation.signed (c.operation.gained q v - q))
  original : c.operation = .set → u.Shows (storedPath c.original) q

section Gain

variable {v q : ℚ} (hfits : ∀ d ∈ changes, d.Fits final) (hc : c ∈ changes)
  (hready : Ready host final changes c v s t) (hq : t.Shows HandChange.roundHands q)

include hfits hc hready hq

theorem exists_gained_add (hop : c.operation = .add) :
    ∃ u, execBlock host [.assign (.extra c.applied) c.quantity.value,
        .set HandChange.roundHands
          ((Expr.path HandChange.roundHands).plus (.extra c.applied))] t = some (.next, u) ∧
      Playable final changes u ∧ c.Gained v q t u := by
  have hfit := hfits c hc
  obtain ⟨t₁, hrecord, hplay₁⟩ := exists_wrote_record hfits hc hready.playable
    c.applied_mem_forms (Or.inl ⟨v, rfl⟩)
  obtain ⟨t₂, hhands, hplay₂⟩ := exists_wrote_hands hfits hplay₁ (q + v)
  have hq₁ : t₁.Shows HandChange.roundHands q :=
    (hrecord.hands hfit.applied_ne_hands).trans hq
  have hfirst : (Stmt.assign (.extra c.applied) c.quantity.value).exec host t =
      some (.next, t₁) := by
    rw [extra_eq_path]
    exact exec_set (hready.value t (.refl t)) hrecord.write
  have hsum : ((Expr.path HandChange.roundHands).plus (.extra c.applied)).eval host t₁ =
      some (.number (.finite (q + v)), t₁) := by
    rw [extra_eq_path]
    exact eval_binary (by simp) (eval_path hq₁) (eval_path hrecord.value) rfl
  refine ⟨t₂, ?_, hplay₂, ?_⟩
  · rw [execBlock_cons_of_next hfirst, execBlock_cons_of_next (exec_set hsum hhands.write)]
    rfl
  constructor
  case others => exact (LeavesOthers.wrote hrecord (by simp)).trans (.wrote hhands (by simp))
  case hands =>
    rw [hop]
    exact hhands.value
  case applied =>
    intro _
    have hdelta : c.operation.signed (c.operation.gained q v - q) = v := by
      rw [hop, HandOperation.gained, HandOperation.signed, add_sub_cancel_left]
    rw [hdelta]
    exact (hhands.stored _ hfit.dotFree_applied hfit.applied_ne_hands).trans hrecord.value
  case original =>
    intro hset
    rw [hop] at hset
    cases hset

theorem exists_gained_subtract (hop : c.operation = .subtract) :
    ∃ u, execBlock host [.letLocal "hands_before" (.path HandChange.roundHands),
        .set HandChange.roundHands
          (.apply "math.max" [.one, (Expr.path HandChange.roundHands).minus c.quantity.value]),
        .assign (.extra c.applied)
          ((Expr.path "hands_before").minus (.path HandChange.roundHands))] t =
        some (.next, u) ∧
      Playable final changes u ∧ c.Gained v q t u := by
  have hfit := hfits c hc
  have hbefore : "hands_before" ∉ reservedRoots := by decide
  have hlocal : c.drawn ≠ "hands_before" := fun heq =>
    hfit.drawn_notMem (heq ▸ List.mem_cons_self)
  let t₁ := t.push "hands_before" (.number (.finite q))
  have hplay₁ : Playable final changes t₁ :=
    hready.playable.push (fun d hd => (hfits d hd).dotFree_original) hbefore _
  have hq₁ : t₁.Shows HandChange.roundHands q :=
    (read_push_of_reserved (by decide +kernel) hbefore _).trans hq
  have hvalue : c.quantity.value.eval host t₁ = some (.number (.finite v), t₁) :=
    hready.value t₁ (.push t hfit.dotFree_drawn hbefore hlocal _)
  obtain ⟨t₂, hhands, hplay₂⟩ := exists_wrote_hands hfits hplay₁ (max 1 (q - v))
  obtain ⟨t₃, hrecord, hplay₃⟩ := exists_wrote_record hfits hc hplay₂ c.applied_mem_forms
    (Or.inl ⟨q - max 1 (q - v), rfl⟩)
  have hmax : (Expr.apply "math.max"
      [.one, (Expr.path HandChange.roundHands).minus c.quantity.value]).eval host t₁ =
      some (.number (.finite (max 1 (q - v))), t₁) := by
    have hdifference : ((Expr.path HandChange.roundHands).minus c.quantity.value).eval host t₁ =
        some (.number (.finite (q - v)), t₁) :=
      eval_binary (by simp) (eval_path hq₁) hvalue (apply_sub_finite q v)
    rw [eval_max (hplay₁.visible "math" (by simp)) (eval_one t₁) hdifference]
    exact congrArg (fun n => some (Value.number n, t₁)) (ExactNumber.finite_max 1 (q - v))
  have htaken : ((Expr.path "hands_before").minus (.path HandChange.roundHands)).eval host t₂ =
      some (.number (.finite (q - max 1 (q - v))), t₂) := by
    have hread : t₂.read "hands_before" = some (.number (.finite q)) := by
      rw [State.read_of_dotFree t₂ (by decide), hhands.root, State.root_push_self]
    exact eval_binary (by simp) (eval_path hread) (eval_path hhands.value) (apply_sub_finite _ _)
  have hlast : (Stmt.assign (.extra c.applied)
      ((Expr.path "hands_before").minus (.path HandChange.roundHands))).exec host t₂ =
      some (.next, t₃) := by
    rw [extra_eq_path]
    exact exec_set htaken hrecord.write
  refine ⟨t₃, ?_, hplay₃, ?_⟩
  · rw [execBlock_cons_of_next (exec_letLocal (eval_path hq)),
      execBlock_cons_of_next (exec_set hmax hhands.write), execBlock_cons_of_next hlast]
    rfl
  constructor
  case others =>
    have hpushed : c.LeavesOthers t t₁ := by
      intro x hdot _
      refine read_push_of_reserved ?_ hbefore _
      rw [pathRoot_storedPath]
      decide
    exact hpushed.trans ((LeavesOthers.wrote hhands (by simp)).trans (.wrote hrecord (by simp)))
  case hands =>
    rw [hop]
    exact (hrecord.hands hfit.applied_ne_hands).trans hhands.value
  case applied =>
    intro _
    have hdelta : c.operation.signed (c.operation.gained q v - q) = q - max 1 (q - v) := by
      rw [hop, HandOperation.gained, HandOperation.signed, neg_sub]
    rw [hdelta]
    exact hrecord.value
  case original =>
    intro hset
    rw [hop] at hset
    cases hset

theorem exists_gained_set (hop : c.operation = .set) :
    ∃ u, execBlock host [.assign (.extra c.original) (.path HandChange.roundHands),
        .set HandChange.roundHands c.quantity.value] t = some (.next, u) ∧
      Playable final changes u ∧ c.Gained v q t u := by
  have hfit := hfits c hc
  obtain ⟨t₁, hrecord, hplay₁⟩ := exists_wrote_record hfits hc hready.playable
    c.original_mem_forms (Or.inl ⟨q, rfl⟩)
  obtain ⟨t₂, hhands, hplay₂⟩ := exists_wrote_hands hfits hplay₁ v
  have hfirst : (Stmt.assign (.extra c.original) (.path HandChange.roundHands)).exec host t =
      some (.next, t₁) := by
    rw [extra_eq_path]
    exact exec_set (eval_path hq) hrecord.write
  have hvalue : c.quantity.value.eval host t₁ = some (.number (.finite v), t₁) :=
    hready.value t₁ (.wrote hrecord hfit.dotFree_drawn hfit.original)
  refine ⟨t₂, ?_, hplay₂, ?_⟩
  · rw [execBlock_cons_of_next hfirst, execBlock_cons_of_next (exec_set hvalue hhands.write)]
    rfl
  constructor
  case others => exact (LeavesOthers.wrote hrecord (by simp)).trans (.wrote hhands (by simp))
  case hands =>
    rw [hop]
    exact hhands.value
  case applied => exact fun hne => absurd hop hne
  case original =>
    intro _
    exact (hhands.stored _ hfit.dotFree_original hfit.original_ne_hands).trans hrecord.value

end Gain

/-! ### Losing the joker -/

/-- The outcome of a loss, when the record counts a change of `a` hands. -/
structure Lost (c : HeldChange) (a q : ℚ) (s u : State W) : Prop where
  others : c.LeavesOthers s u
  hands : u.Shows HandChange.roundHands (q - a)
  applied : u.Shows (storedPath c.applied) 0
  /-- A record that counts no change changes nothing. -/
  unchanged : a = 0 → u = s

section Loss

variable {a q : ℚ} (hfits : ∀ d ∈ changes, d.Fits final) (hc : c ∈ changes)
  (h : Playable final changes s) (hq : s.Shows HandChange.roundHands q)

/-- A recorded number, or zero. -/
theorem eval_recorded (ha : s.Shows (storedPath c.applied) a) :
    ((Expr.extra c.applied).or .zero).eval host s = some (.number (.finite a), s) := by
  rw [extra_eq_path, eval_or (eval_path ha), Value.truthy_number, if_pos rfl]

include hfits hc h hq

/-- The hands become what the record does not count, and the record becomes zero. -/
theorem exists_lost (op : BinaryOp) {r : ℚ} (hr : s.Shows (storedPath c.applied) r)
    (hbinary : op ≠ .and ∧ op ≠ .or)
    (happly : op.apply (.number (.finite q)) (.number (.finite r)) =
      some (.number (.finite (q - c.operation.signed r)))) :
    ∃ u, execBlock host [.set HandChange.roundHands
          (.binary op (.path HandChange.roundHands) ((Expr.extra c.applied).or .zero)),
        .assign (.extra c.applied) .zero] s = some (.next, u) ∧
      Playable final changes u ∧ c.Lost (c.operation.signed r) q s u := by
  have hfit := hfits c hc
  obtain ⟨t₁, hhands, hplay₁⟩ := exists_wrote_hands hfits h (q - c.operation.signed r)
  obtain ⟨t₂, hrecord, hplay₂⟩ := exists_wrote_record hfits hc hplay₁ c.applied_mem_forms
    (Or.inl ⟨0, rfl⟩)
  have hdifference : (Expr.binary op (.path HandChange.roundHands)
      ((Expr.extra c.applied).or .zero)).eval host s =
      some (.number (.finite (q - c.operation.signed r)), s) :=
    eval_binary hbinary (eval_path hq) (eval_recorded hr) happly
  have hlast : (Stmt.assign (.extra c.applied) .zero).exec host t₁ = some (.next, t₂) := by
    rw [extra_eq_path]
    exact exec_set (eval_zero t₁) hrecord.write
  refine ⟨t₂, ?_, hplay₂, ?_⟩
  · rw [execBlock_cons_of_next (exec_set hdifference hhands.write), execBlock_cons_of_next hlast]
    rfl
  constructor
  case others => exact (LeavesOthers.wrote hhands (by simp)).trans (.wrote hrecord (by simp))
  case hands => exact (hrecord.hands hfit.applied_ne_hands).trans hhands.value
  case applied => exact hrecord.value
  case unchanged =>
    intro hzero
    have hr0 : r = 0 := by
      rw [← c.operation.signed_signed r, hzero, HandOperation.signed_zero]
    have hsame : t₁ = s := hhands.unchanged (by rw [hzero, sub_zero]; exact hq)
    subst hsame
    exact hrecord.unchanged (by rw [← hr0]; exact hr)

omit hq in
/-- A number seen before comes back, and is forgotten. -/
theorem exists_lost_set {q₀ : ℚ} (hq₀ : s.Shows (storedPath c.original) q₀) :
    ∃ u, execBlock host [.ifThen (.extra c.original)
          [.set HandChange.roundHands (.extra c.original), .assign (.extra c.original) .nil]] s =
        some (.next, u) ∧
      Playable final changes u ∧ c.LeavesOthers s u ∧ u.Shows HandChange.roundHands q₀ ∧
      u.read (storedPath c.original) = some .nil := by
  have hfit := hfits c hc
  obtain ⟨t₁, hhands, hplay₁⟩ := exists_wrote_hands hfits h q₀
  obtain ⟨t₂, hrecord, hplay₂⟩ := exists_wrote_record hfits hc hplay₁ c.original_mem_forms
    (Or.inr ⟨rfl, hfit.original⟩)
  refine ⟨t₂, ?_, hplay₂, (LeavesOthers.wrote hhands (by simp)).trans (.wrote hrecord (by simp)),
    (hrecord.hands hfit.original_ne_hands).trans hhands.value, hrecord.value⟩
  have hlast : (Stmt.assign (.path (storedPath c.original)) .nil).exec host t₁ =
      some (.next, t₂) := exec_set rfl hrecord.write
  have hbody : execBlock host [.set HandChange.roundHands (.path (storedPath c.original)),
      .assign (.path (storedPath c.original)) .nil] s = some (.next, t₂) := by
    rw [execBlock_cons_of_next (exec_set (eval_path hq₀) hhands.write),
      execBlock_cons_of_next hlast]
    rfl
  have hclosed : closeBlock s.locals.length (some (.next, t₂)) = some (.next, t₂) := by
    rw [← hhands.locals, ← hrecord.locals]
    exact congrArg (fun u => some (Flow.next, u)) t₂.close_length
  have hbranch : (Stmt.ifThen (.path (storedPath c.original))
      [.set HandChange.roundHands (.path (storedPath c.original)),
        .assign (.path (storedPath c.original)) .nil]).exec host s = some (.next, t₂) := by
    rw [exec_ifThen _ (eval_path hq₀), Value.truthy_number, if_pos rfl, hbody, hclosed]
  rw [extra_eq_path, execBlock_cons_of_next hbranch]
  rfl

end Loss

/-- Without a number seen before, nothing happens. -/
theorem execBlock_lost_set_of_nil (body : Block)
    (hnil : s.read (storedPath c.original) = some .nil) :
    execBlock host [.ifThen (.extra c.original) body] s = some (.next, s) := by
  have hbranch : (Stmt.ifThen (.path (storedPath c.original)) body).exec host s =
      some (.next, s) := by
    rw [exec_ifThen _ (eval_path hnil), Value.truthy_nil]
    rfl
  rw [extra_eq_path, execBlock_cons_of_next hbranch]
  rfl

end HeldChange

/-! ### The blocks of a compiled effect -/

/-- The state after a block whose end is reached. -/
def Lua.finish (host : Host W) (body : Block) (s : State W) : Option (State W) :=
  match execBlock host body s with
  | some (.next, t) => some t
  | some (.leave, _) | some (.ret _, _) | none => none

theorem Lua.finish_of_next {body : Block} (h : execBlock host body s = some (.next, t)) :
    finish host body s = some t := by
  rw [finish, h]

namespace EffectBlocks

/-- The state after the joker is gained. Only an effect of a held joker has a block for it. -/
def onGain (host : Host W) (s : State W) : EffectBlocks → Option (State W)
  | whileHeld gain _ => finish host gain s
  | callback _ | beforeReturn _ => none

/-- The state after the joker is lost. -/
def onLoss (host : Host W) (s : State W) : EffectBlocks → Option (State W)
  | whileHeld _ loss => finish host loss s
  | callback _ | beforeReturn _ => none

end EffectBlocks

namespace HeldChange

variable {c : HeldChange} (hfits : ∀ d ∈ changes, d.Fits final) (hc : c ∈ changes)
  (h : Playable final changes s)

include hfits hc h

/-- **A gain** changes the number of hands as the operation says, for the number that the
expression of the quantity gives, and records it. -/
theorem exists_onGain (hdraws : host.DrawsFinite) {q : ℚ}
    (hq : s.Shows HandChange.roundHands q) :
    ∃ (v : ℚ) (w : W) (u : State W),
      c.resolved.expr.eval host s = some (.number (.finite v), { s with world := w }) ∧
      c.blocks.onGain host s = some u ∧ Playable final changes u ∧ c.Gained v q s u := by
  obtain ⟨v, w, t, heval, hready⟩ := exists_ready hdraws hfits hc h
  have hqt : t.Shows HandChange.roundHands q :=
    (hready.reads _ (by decide +kernel)).trans hq
  have hslot : c.quantity.slot = c.slot := BoundQuantity.slot_ofResolved _ _
  have hgain : ∃ u, c.blocks.onGain host s = some u ∧ Playable final changes u ∧
      c.Gained v q t u := by
    rw [blocks]
    cases hop : c.operation with
    | add =>
        obtain ⟨u, hrun, hplay, hgained⟩ := exists_gained_add hfits hc hready hqt hop
        refine ⟨u, ?_, hplay, hgained⟩
        rw [HandChange.heldAdd, hslot]
        exact finish_of_next ((execBlock_append_of_next hready.setup).trans hrun)
    | subtract =>
        obtain ⟨u, hrun, hplay, hgained⟩ := exists_gained_subtract hfits hc hready hqt hop
        refine ⟨u, ?_, hplay, hgained⟩
        rw [HandChange.heldSubtract, hslot]
        exact finish_of_next ((execBlock_append_of_next hready.setup).trans hrun)
    | set =>
        obtain ⟨u, hrun, hplay, hgained⟩ := exists_gained_set hfits hc hready hqt hop
        refine ⟨u, ?_, hplay, hgained⟩
        rw [HandChange.heldSet, hslot]
        exact finish_of_next ((execBlock_append_of_next hready.setup).trans hrun)
  obtain ⟨u, hrun, hplay, hgained⟩ := hgain
  exact ⟨v, w, u, heval, hrun, hplay,
    { hgained with others := hready.leavesOthers.trans hgained.others }⟩

variable (host) in
/-- **A loss** takes back the change that the record counts. -/
theorem exists_onLoss (hop : c.operation ≠ .set) {q r : ℚ}
    (hq : s.Shows HandChange.roundHands q) (hr : s.Shows (storedPath c.applied) r) :
    ∃ u, c.blocks.onLoss host s = some u ∧ Playable final changes u ∧
      c.Lost (c.operation.signed r) q s u := by
  have hslot : c.quantity.slot = c.slot := BoundQuantity.slot_ofResolved _ _
  have hsub : BinaryOp.sub.apply (.number (.finite q)) (.number (.finite r)) =
      some (.number (.finite (q - r))) := apply_sub_finite q r
  have hadd : BinaryOp.add.apply (.number (.finite q)) (.number (.finite r)) =
      some (.number (.finite (q - -r))) := by
    rw [sub_neg_eq_add]
    rfl
  rw [blocks]
  cases hkind : c.operation with
  | add =>
      rw [HandChange.heldAdd, hslot]
      obtain ⟨u, hrun, hplay, hlost⟩ := exists_lost hfits hc h hq .sub hr (by simp) (by
        rw [hkind]
        exact hsub)
      exact ⟨u, finish_of_next hrun, hplay, hkind ▸ hlost⟩
  | subtract =>
      rw [HandChange.heldSubtract, hslot]
      obtain ⟨u, hrun, hplay, hlost⟩ := exists_lost hfits hc h hq .add hr (by simp) (by
        rw [hkind]
        exact hadd)
      exact ⟨u, finish_of_next hrun, hplay, hkind ▸ hlost⟩
  | set => exact absurd hkind hop

variable (host) in
/-- **A loss of a number that was set** brings back the number seen before, and forgets it. -/
theorem exists_onLoss_set (hop : c.operation = .set) {q₀ : ℚ}
    (hq₀ : s.Shows (storedPath c.original) q₀) :
    ∃ u, c.blocks.onLoss host s = some u ∧ Playable final changes u ∧ c.LeavesOthers s u ∧
      u.Shows HandChange.roundHands q₀ ∧ u.read (storedPath c.original) = some .nil := by
  have hslot : c.quantity.slot = c.slot := BoundQuantity.slot_ofResolved _ _
  obtain ⟨u, hrun, hlost⟩ := exists_lost_set hfits hc h hq₀
  rw [blocks, hop, HandChange.heldSet, hslot]
  exact ⟨u, finish_of_next hrun, hlost⟩

omit hfits hc h

/-- A loss without a number seen before changes nothing. -/
theorem onLoss_set_of_nil (hop : c.operation = .set)
    (hnil : s.read (storedPath c.original) = some .nil) :
    c.blocks.onLoss host s = some s := by
  have hslot : c.quantity.slot = c.slot := BoundQuantity.slot_ofResolved _ _
  rw [blocks, hop, HandChange.heldSet, hslot]
  exact finish_of_next (execBlock_lost_set_of_nil _ hnil)

end HeldChange

end JokerScript
