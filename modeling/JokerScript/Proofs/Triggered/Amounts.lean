import JokerScript.Proofs.Effect.Bound
import JokerScript.Proofs.Resolve.Policies
import JokerScript.Proofs.Triggered.Game

/-!
# Amounts at a Trigger

The code of a trigger evaluates the amount of a change several times, and in between it changes
what the amount may be read from. A draw is bound to a local variable first. All other amounts
are read again each time, and only one of them can see what the code does: a reference to the
hands left in the round moves along with them, by its factor.

## Main definitions

* `Source.handsFactor` — by which factor an amount moves along with the hands left.
* `Follows` — the value of an expression while the code runs.

## Main results

* `exec_setup` — the amount after its setup.
-/

namespace JokerScript

open Lua

/-- The factor of a reference to the hands left in the round. All other sources have the factor
zero. -/
def Source.handsFactor : Source → ℚ
  | gameVar v =>
    if v.token = "remaining_hands" then
      match v.multiplier.literalValue with
      | .finite q => q
      | .infinite _ | .nan => 0
    else
      0
  | range .. | named _ | number _ | unresolved => 0

variable {W : Type} {host : Host W} {s t u : State W} {added : List (String × Value)}
  {fields : List (ℕ × String)}

/-- The expression has the value `v` in the state `s`, and **follows** the hands left: while the
code runs, it has the value `v` and as many times the factor as there are hands more. No field
of the storage of the card may have changed. -/
def Follows (host : Host W) (added : List (String × Value)) (s : State W) (e : Expr)
    (factor v : ℚ) : Prop :=
  ∀ {fields : List (ℕ × String)} {t : State W} {d : ℚ}, Runs added fields s t →
    (∀ a, s.read "card.ability.extra" = some (.table a) → ∀ f ∈ fields, f.1 ≠ a) →
    (∀ n, s.read HandChange.handsLeft = some (.number n) →
      t.read HandChange.handsLeft = some (.number (n.add (.finite d)))) →
    e.eval host t = some (.number (.finite (v + factor * d)), t)

/-! ### Finite numbers -/

namespace Lua.ExactNumber

theorem exists_finite_of_add {a b : ExactNumber} {q : ℚ} (h : a.add b = .finite q) :
    ∃ x y, a = .finite x ∧ b = .finite y ∧ q = x + y := by
  cases a <;> cases b
  case finite.finite x y => exact ⟨x, y, rfl, rfl, (ExactNumber.finite.inj h).symm⟩
  case infinite.infinite =>
    rw [add] at h
    split at h <;> cases h
  all_goals cases h

theorem exists_finite_of_mul {a b : ExactNumber} {q : ℚ} (h : a.mul b = .finite q) :
    ∃ x y, a = .finite x ∧ b = .finite y ∧ q = x * y := by
  cases a <;> cases b
  case finite.finite x y => exact ⟨x, y, rfl, rfl, (ExactNumber.finite.inj h).symm⟩
  case infinite.finite | finite.infinite =>
    rw [mul] at h
    split at h <;> cases h
  all_goals cases h

end Lua.ExactNumber

/-! ### What an evaluation has read -/

/-- The left operand of an operation on numbers is a number. -/
theorem exists_number_of_eval_binary {op : BinaryOp} (hop : op = .add ∨ op = .sub ∨ op = .mul)
    {l r : Expr} {v : Value} (h : (Expr.binary op l r).eval host s = some (v, t)) :
    ∃ n u, l.eval host s = some (.number n, u) := by
  have hshort : ∀ a, op.shortcut? a = none := by
    intro a
    rcases hop with rfl | rfl | rfl <;> rfl
  have hfinish : ∀ a b : Value, (∀ n, a ≠ .number n) → op.finish a b = none := by
    intro a b ha
    rcases hop with rfl | rfl | rfl <;> cases a <;> first | rfl | exact absurd rfl (ha _)
  rw [Expr.eval] at h
  cases hl : l.eval host s with
  | none =>
      rw [hl] at h
      cases h
  | some o =>
      obtain ⟨a, u⟩ := o
      by_cases ha : ∃ n, a = .number n
      · obtain ⟨n, rfl⟩ := ha
        exact ⟨n, u, rfl⟩
      · push Not at ha
        simp [hl, hshort, hfinish _ _ ha] at h

section Reading

variable {n : ExactNumber} {reading : GameState.Reading} {e : Expr} {v : Value}

theorem exists_number_of_eval_scaled {m : Number}
    (h : (GameVar.scaled e m).eval host s = some (.number n, t)) :
    ∃ n u, e.eval host s = some (.number n, u) := by
  rw [GameVar.scaled] at h
  split at h
  · exact ⟨n, t, h⟩
  · exact exists_number_of_eval_binary (by simp) h

theorem exists_number_of_eval_shifted {o : Number}
    (h : (GameVar.shifted e o).eval host s = some (.number n, t)) :
    ∃ n u, e.eval host s = some (.number n, u) := by
  rw [GameVar.shifted] at h
  split at h
  · exact ⟨n, t, h⟩
  · split at h
    · exact exists_number_of_eval_binary (by simp) h
    · exact exists_number_of_eval_binary (by simp) h

theorem read_of_eval_path {p : String} (h : (Expr.path p).eval host s = some (v, t)) :
    s.read p = some v ∧ t = s := by
  obtain ⟨w, hw, heq⟩ := Option.map_eq_some_iff.mp h
  obtain ⟨rfl, rfl⟩ := Prod.mk.inj heq
  exact ⟨hw, rfl⟩

theorem read_of_eval_length {p : String} (h : (Expr.path p).length.eval host s = some (v, t)) :
    ∃ w, s.read p = some w ∧ UnaryOp.len.apply s w = some v ∧ t = s := by
  have heval : (Expr.path p).length.eval host s = ((Expr.path p).eval host s).bind fun o =>
      (UnaryOp.len.apply o.2 o.1).bind fun r => some (r, o.2) := rfl
  rw [heval, Option.bind_eq_some_iff] at h
  obtain ⟨⟨w, u⟩, hpath, hlength⟩ := h
  obtain ⟨hread, rfl⟩ := read_of_eval_path hpath
  obtain ⟨r, hr, heq⟩ := Option.bind_eq_some_iff.mp hlength
  obtain ⟨rfl, rfl⟩ := Prod.mk.inj (Option.some.inj heq)
  exact ⟨w, hread, hr, rfl⟩

/-- Arguments without effects have none together. -/
theorem eq_of_evalArgs {es : List Expr} {vs : List Value}
    (hes : ∀ e ∈ es, ∀ v t, e.eval host s = some (v, t) → t = s)
    (h : evalArgs host es s = some (vs, t)) : t = s := by
  induction es generalizing vs t with
  | nil => exact (Prod.mk.inj (Option.some.inj h)).2.symm
  | cons e es ih =>
      rw [List.forall_mem_cons] at hes
      obtain ⟨⟨v, s'⟩, he, hrest⟩ := Option.bind_eq_some_iff.mp h
      obtain rfl := hes.1 v s' he
      obtain ⟨⟨vs', t'⟩, hes', heq⟩ := Option.bind_eq_some_iff.mp hrest
      obtain ⟨-, rfl⟩ := Prod.mk.inj (Option.some.inj heq)
      exact ih hes.2 hes'

/-- The game is read without any effect. -/
theorem eq_of_eval_reading (h : reading.expr.eval host s = some (v, t)) : t = s := by
  cases reading with
  | field path => exact (read_of_eval_path h).2
  | count path =>
      obtain ⟨-, -, -, heq⟩ := read_of_eval_length h
      exact heq

/-- **What the evaluation of a scaled reference has read**: a number of the game, of which the
result is made. -/
theorem exists_number_of_eval_gameVar {x : GameVar} (he : x.expr? = some e)
    (h : e.eval host s = some (.number n, t)) :
    ∃ reading k, (x.token, reading) ∈ GameState.readings ∧
      e = GameVar.shifted (GameVar.scaled reading.expr x.multiplier) x.offset ∧
      reading.expr.eval host s = some (.number k, s) ∧ t = s ∧
      n = (k.mul x.multiplier.literalValue).add x.offset.literalValue := by
  obtain ⟨reading, hmem, rfl⟩ := GameVar.exists_reading he
  obtain ⟨m, u, hscaled⟩ := exists_number_of_eval_shifted h
  obtain ⟨k, u', hreading⟩ := exists_number_of_eval_scaled hscaled
  obtain rfl := eq_of_eval_reading hreading
  have heval := eval_shifted x.offset (eval_scaled x.multiplier hreading)
  obtain ⟨hn, rfl⟩ := Prod.mk.inj (Option.some.inj (h.symm.trans heval))
  exact ⟨reading, k, hmem, rfl, hreading, rfl, Value.number.inj hn⟩

end Reading

/-! ### Reading again -/

namespace Runs

variable (h : Runs added fields s t)

include h

/-- The storage of the card is read as before. -/
theorem read_stored (hextra : ∀ a, s.read "card.ability.extra" = some (.table a) →
      ∀ f ∈ fields, f.1 ≠ a) {name : String} (hname : DotFree name) {v : Value}
    (hv : s.read (storedPath name) = some v) : t.read (storedPath name) = some v := by
  obtain ⟨a, ha⟩ := State.read_child_inv hname hv
  obtain ⟨hroot, hpath⟩ := triggerPaths_spec "card.ability.extra" (by decide)
  have hnot : (a, name) ∉ fields := fun hmem => hextra a ha _ hmem rfl
  have hfields : ∀ f ∈ fields, f.2 ∉ pathFields "card.ability.extra" := fun f hf hmem =>
    hpath f.2 hmem (h.names f hf)
  exact (h.changes.read_child h.ready.sound (h.hidden _ hroot) hfields hname ha hnot).trans hv

/-- The game is read as before, apart from the hands left. -/
theorem eval_reading {token : String} {reading : GameState.Reading}
    (hmem : (token, reading) ∈ GameState.readings) (htoken : token ≠ "remaining_hands")
    {n : ExactNumber} (hn : reading.expr.eval host s = some (.number n, s)) :
    reading.expr.eval host t = some (.number n, t) := by
  have hnames : ∀ p ∈ GameState.readings, p.1 ≠ "remaining_hands" →
      ∀ x ∈ changedFields, x ∉ pathFields p.2.path := by decide +kernel
  have hread : t.read reading.path = s.read reading.path := by
    refine h.changes.read h.ready.sound (h.hidden _ ?_) fun f hf => ?_
    · rw [pathRoot_readings _ hmem]
      decide
    · exact hnames _ hmem htoken f.2 (h.names f hf)
  cases reading with
  | field path => exact eval_path (hread.trans (read_of_eval_path hn).1)
  | count path =>
      obtain ⟨w, hw, hlength, -⟩ := read_of_eval_length hn
      refine eval_unary (eval_path (hread.trans hw)) ?_
      cases w with
      | table a =>
          have hitems := h.changes.items a (h.ready.sound.read hw)
          rw [UnaryOp.apply, hitems]
          exact hlength
      | _ => exact hlength

end Runs

/-! ### Following the hands left -/

section Follows

variable {v : ℚ}

/-- A variable of the joker follows nothing. -/
theorem follows_stored {name : String} (hname : DotFree name)
    (h : (Expr.extra name).eval host s = some (.number (.finite v), u)) :
    u = s ∧ Follows host added s (.extra name) 0 v := by
  rw [extra_eq_path] at h ⊢
  obtain ⟨hread, rfl⟩ := read_of_eval_path h
  refine ⟨rfl, fun {fields t d} ht hextra _ => ?_⟩
  rw [zero_mul, add_zero]
  exact eval_path (ht.read_stored hextra hname hread)

/-- A reference to the game follows by its factor. -/
theorem follows_gameVar {x : GameVar} {e : Expr} (he : x.expr? = some e)
    (h : e.eval host s = some (.number (.finite v), u)) :
    u = s ∧ Follows host added s e (Source.gameVar x).handsFactor v := by
  obtain ⟨reading, k, hmem, rfl, hreading, rfl, hv⟩ := exists_number_of_eval_gameVar he h
  refine ⟨rfl, fun {fields t d} ht _ hleft => ?_⟩
  rw [Source.handsFactor]
  split
  -- The reading is the hands left themselves, and moves with them.
  · rename_i htoken
    have honly : ∀ p ∈ GameState.readings, p.1 = "remaining_hands" →
        p.2 = .field HandChange.handsLeft := by decide
    obtain rfl : reading = .field HandChange.handsLeft := honly _ hmem htoken
    obtain ⟨y, c, hmul, hoffset, rfl⟩ := ExactNumber.exists_finite_of_add hv.symm
    obtain ⟨l, m, rfl, hfactor, rfl⟩ := ExactNumber.exists_finite_of_mul hmul
    have hmoved : (Expr.path HandChange.handsLeft).eval host t =
        some (.number (.finite (l + d)), t) := eval_path (hleft _ (read_of_eval_path hreading).1)
    have heval := eval_shifted x.offset (eval_scaled x.multiplier hmoved)
    rw [hfactor, hoffset, ExactNumber.finite_mul, ExactNumber.finite_add] at heval
    have hsum : (l + d) * m + c = l * m + c + m * d := by ring
    rw [hsum] at heval
    rw [hfactor]
    exact heval
  -- No other reading goes through a field that the code changes.
  · rename_i htoken
    rw [zero_mul, add_zero, hv]
    exact eval_shifted x.offset (eval_scaled x.multiplier (ht.eval_reading hmem htoken hreading))

/-- A draw that is bound to a local variable follows nothing. -/
theorem follows_drawn {name : String} (hname : DotFree name) :
    Follows host [(name, .number (.finite v))] s (.path name) 0 v := by
  intro fields t d ht _ _
  have hread : t.read name = some (.number (.finite v)) := by
    rw [State.read_of_dotFree t hname, State.root, ht.changes.locals]
    simp
  rw [zero_mul, add_zero]
  exact eval_path hread

end Follows

/-! ### Setup -/

/-- No path of the code begins at the local variable of a draw. -/
theorem hidesNothing_drawn (slot : String) (v : Value) : HidesNothing [(slot ++ "_value", v)] := by
  -- The slot may be any text, but the name of the variable ends in a letter that no root ends in.
  have hlast : ∀ name ∈ triggerRoots, name.toList.getLast? ≠ some 'e' := by decide
  intro name hname
  have hne : name ≠ slot ++ "_value" := by
    rintro rfl
    refine hlast _ hname ?_
    rw [String.toList_append, List.getLast?_append]
    rfl
  simp [List.lookup_cons, beq_eq_false_iff_ne.mpr hne]

/-- A draw is a call of the game. -/
theorem call_of_eval_range {slot seed : String} {min max : Number} {v : Value} (hready : Ready s)
    (h : (Resolved.range slot min max seed).expr.eval host s = some (v, u)) :
    ∃ args, host.call "pseudorandom" args s = some (v, u) := by
  have hroot : pathRoot "pseudorandom" = "pseudorandom" := by decide
  have heval : (Resolved.range slot min max seed).expr.eval host s = _ :=
    eval_apply_eq _ (hroot ▸ hready.visible _ (by decide))
  rw [heval, Option.bind_eq_some_iff] at h
  obtain ⟨⟨vs, t⟩, hvs, hcall⟩ := h
  obtain rfl : t = s := by
    refine eq_of_evalArgs ?_ hvs
    simp only [List.forall_mem_cons, List.not_mem_nil, false_implies, implies_true, and_true]
    refine ⟨fun v t ht => ?_, fun v t ht => (read_of_eval_path ht).2,
      fun v t ht => (read_of_eval_path ht).2⟩
    exact (Prod.mk.inj (Option.some.inj ht)).2.symm
  exact ⟨vs, hcall⟩

variable {screen : Screen W} {shown : ExactNumber → String} {format : ExactNumber → Value}

/-- What is ready after the setup of an amount: the amount follows the hands left. -/
structure Prepared (host : Host W) (screen : Screen W) (q : BoundQuantity) (factor v : ℚ)
    (added : List (String × Value)) (s t : State W) : Prop where
  hidden : HidesNothing added
  setup : execBlock host q.setup s = some (.next, t)
  changes : ∀ fields, s.ChangesOnly added fields t
  adds : screen.Adds s t [] 0
  follows : Follows host added s q.value factor v

/-- **The amount after its setup** follows the hands left. -/
theorem exec_setup (laws : TriggerLaws host screen shown format) {source : Source}
    {naming : Naming} {owner slot : String} {st : Storage} {v : ℚ} (hready : Ready s)
    (hslot : DotFree slot) (hname : ∀ name, source = .named name → DotFree name)
    (h : (source.settled naming (.declared slot owner) st slot).expr.eval host s =
      some (.number (.finite v), u)) :
    ∃ added t, Prepared host screen
      (.ofResolved slot (source.settled naming (.declared slot owner) st slot))
      source.handsFactor v added s t := by
  have hstable : ∀ {r : Resolved} {factor : ℚ}, r.isStable = true →
      Follows host [] s r.expr factor v →
      ∃ added t, Prepared host screen (.ofResolved slot r) factor v added s t := by
    intro r factor hr hfollows
    rw [BoundQuantity.ofResolved, if_pos hr]
    exact ⟨[], s, fun _ _ => rfl, rfl, fun fields => .refl s fields, screen.adds_nil rfl, hfollows⟩
  have hliteral : ∀ n : Number,
      ((ResolveRequest.declared slot owner).literal n).expr.eval host s =
        some (.number (.finite v), u) →
      ∃ added t, Prepared host screen
        (.ofResolved slot ((ResolveRequest.declared slot owner).literal n)) 0 v added s t :=
    fun n hn => hstable rfl (follows_stored hslot hn).2
  cases source with
  | gameVar x =>
      cases he : x.expr? with
      | some e =>
          simp only [Source.settled, he] at h ⊢
          exact hstable rfl (follows_gameVar he h).2
      | none =>
          have hfactor : (Source.gameVar x).handsFactor = 0 := by
            refine if_neg fun htoken => GameVar.expr?_eq_none.mp he ?_
            rw [htoken]
            decide
          simp only [Source.settled, he] at h ⊢
          rw [hfactor]
          exact hliteral _ h
  -- Only here there is a setup: the draw is bound, and its value stays.
  | range min max =>
      obtain ⟨args, hcall⟩ := call_of_eval_range hready h
      obtain ⟨hgrows, hadds⟩ := laws.draw hcall
      refine ⟨_, u.push (slot ++ "_value") (.number (.finite v)), hidesNothing_drawn slot _,
        execBlock_cons_of_next (exec_letLocal h), fun fields => ?_,
        ⟨hadds.texts, hadds.recalculations⟩, follows_drawn (hslot.append (by decide))⟩
      exact ((State.ChangesOnly.refl s fields).grows hgrows).push _ _
  | named name =>
      rw [Source.settled] at h ⊢
      split at h
      · rename_i hdeclared
        rw [if_pos hdeclared]
        exact hstable rfl (follows_stored (hname name rfl) h).2
      · rename_i hdeclared
        rw [if_neg hdeclared]
        exact hliteral _ h
  | number n => exact hliteral n h
  | unresolved => exact hliteral _ h

end JokerScript
