import JokerScript.Proofs.Draft.Values
import JokerScript.Proofs.Held.Blocks

/-!
# Amounts of Drafts

Discounts and free rerolls have an amount that is a plain number. It is read from a number or from
a numeral, and one stands for zero and for all that is no number. So an amount is never zero.
It is finite unless the number that is given is not: the reader of numerals knows the names of the
infinite numbers and of NaN, and nothing asks for a finite one.

Free rerolls with a finite amount are given back exactly when the joker is lost, whatever else
has changed the number of free rerolls in the meantime. Infinitely many are not given back at all:
what is left is no number.

## Main definitions

* `Json.GivesNumber` — the number that a JSON value gives.
* `EffectKind.amount?` — the amount of an effect, and the parameter that it is read from.
* `RerollLaws` — what the game does when it is asked for free rerolls.
* `EffectBlocks.GivesBack` — what is given with a joker is taken back with it.

## Main results

* `Params.amount_cases` — an amount is the number that is given, or one.
* `DraftEffect.amount_of_validate` — which amounts are finite, and what follows for rerolls.
-/

namespace JokerScript

open Lua

/-! ### Numbers that are given -/

/-- The number that a JSON value gives: it is the number, or a numeral of it. -/
inductive Json.GivesNumber : Json → Number → Prop
  | int (i : ℤ) : GivesNumber (.int i) (Number.ofInt i)
  | float (n : Number) : GivesNumber (.float n) n
  | numeral {s : String} {n : Number} (h : numeral? s.toList = some n) : GivesNumber (.str s) n

theorem numeral?_empty : numeral? "".toList = none := by decide +kernel

/-- The reader of amounts finds the number that is given. -/
theorem asNumber?_eq_some_iff (j : Json) (n : Number) :
    (Params.quantityOf? j).bind Quantity.asNumber? = some n ↔ j.GivesNumber n := by
  cases j with
  | null => exact ⟨nofun, nofun⟩
  | int i =>
      refine ⟨fun h => ?_, fun h => ?_⟩
      · obtain rfl := Option.some.inj h
        exact .int i
      · cases h
        rfl
  | float m =>
      refine ⟨fun h => ?_, fun h => ?_⟩
      · obtain rfl := Option.some.inj h
        exact .float m
      · cases h
        rfl
  | str s =>
      by_cases hs : s = ""
      · subst hs
        refine ⟨nofun, fun h => ?_⟩
        cases h with
        | numeral h => exact absurd (numeral?_empty.symm.trans h) nofun
      · rw [Params.quantityOf?, if_neg (by simpa using hs), Option.bind_some]
        refine ⟨.numeral, fun h => ?_⟩
        cases h with
        | numeral h => exact h
  | bool _ | arr _ | obj _ =>
      refine ⟨fun h => ?_, nofun⟩
      rw [Json.IsStructured.quantityOf? (by constructor), Option.bind_some,
        Json.IsStructured.asNumber? (by constructor)] at h
      cases h

namespace Params

variable {params : Params} {name : String}

/-- The number that is given for a parameter. -/
def GivesNumber (params : Params) (name : String) (n : Number) : Prop :=
  ∃ j, params.lookup name = some j ∧ j.GivesNumber n

theorem bind_asNumber?_eq_some_iff {n : Number} :
    (params.quantity? name).bind Quantity.asNumber? = some n ↔ params.GivesNumber name n := by
  rw [quantity?, GivesNumber, Option.bind_assoc]
  cases params.lookup name with
  | none => simp
  | some j =>
      rw [Option.bind_some, asNumber?_eq_some_iff]
      simp

/-- No more than one number is given for a parameter. -/
theorem GivesNumber.unique {m n : Number} (hm : params.GivesNumber name m)
    (hn : params.GivesNumber name n) : m = n :=
  Option.some.inj ((bind_asNumber?_eq_some_iff.mpr hm).symm.trans
    (bind_asNumber?_eq_some_iff.mpr hn))

/-- **An amount** is the number that is given, unless this is zero, and one otherwise. -/
theorem amount_cases (params : Params) (name : String) :
    (∃ n, params.GivesNumber name n ∧ n.isZero = false ∧ params.amount name = n) ∨
      (∀ n, params.GivesNumber name n → n.isZero = true) ∧ params.amount name = Number.one := by
  rw [amount]
  cases hnumber : (params.quantity? name).bind Quantity.asNumber? with
  | none =>
      refine .inr ⟨fun n hn => ?_, rfl⟩
      cases hnumber.symm.trans (bind_asNumber?_eq_some_iff.mpr hn)
  | some n =>
      have hn := bind_asNumber?_eq_some_iff.mp hnumber
      cases hzero : n.isZero with
      | false => exact .inl ⟨n, hn, hzero, by simp [hzero]⟩
      | true => exact .inr ⟨fun m hm => hn.unique hm ▸ hzero, by simp [hzero]⟩

end Params

/-! ### Rerolls -/

/-- A finite number has a value. -/
theorem Number.exists_literalValue {n : Number} (h : n.isFinite = true) :
    ∃ a, n.literalValue = .finite a ∧ n.opposite.literalValue = .finite (-a) := by
  have hNaN : n.isNaN = false := by
    rw [isFinite, decide_eq_true_eq] at h
    simp [isNaN, h.ne]
  have hvalue : n.literalValue =
      .finite ((if n.negative then -1 else 1) * (n.numerator / n.denominator)) := by
    simp [literalValue, exact, hNaN, h]
  exact ⟨_, hvalue, by rw [literalValue_opposite hNaN, hvalue]; rfl⟩

/-- What the game does when it is asked for free rerolls: it adds them to their number, and keeps
the local variables of the code that asks. -/
structure RerollLaws {W : Type} (host : Host W) (rerolls : State W → ExactNumber) : Prop where
  change (n : ExactNumber) (s : State W) :
    ∃ v t, host.call "SMODS.change_free_rerolls" [.number n] s = some (v, t) ∧
      rerolls t = (rerolls s).add n ∧ t.locals = s.locals

section Rerolls

variable {W : Type} {host : Host W} {rerolls : State W → ExactNumber}

/-- What is given with a joker is taken back with it: the number of free rerolls is as before,
apart from what else has changed it in the meantime. -/
def EffectBlocks.GivesBack (host : Host W) (rerolls : State W → ExactNumber)
    (blocks : EffectBlocks) : Prop :=
  ∀ (s : State W) (q : ℚ), s.locals = [] → rerolls s = .finite q →
    ∃ t, blocks.onGain host s = some t ∧ t.locals = [] ∧
      ∀ (u : State W) (d : ℚ), u.locals = [] → rerolls u = (rerolls t).add (.finite d) →
        ∃ v, blocks.onLoss host u = some v ∧ rerolls v = .finite (q + d)

namespace RerollGrant

/-- The change is made by the game. -/
theorem exists_finish_change (hlaws : RerollLaws host rerolls) (amount : Number) {s : State W}
    (hlocals : s.locals = []) :
    ∃ t, finish host (change amount) s = some t ∧
      rerolls t = (rerolls s).add amount.literalValue ∧ t.locals = [] := by
  obtain ⟨v, t, hcall, hadded, hkept⟩ := hlaws.change amount.literalValue s
  have hargs : evalArgs host [.number amount] s = some ([.number amount.literalValue], s) :=
    evalArgs_cons (eval_number amount s) (evalArgs_nil s)
  have heval : (Expr.apply "SMODS.change_free_rerolls" [.number amount]).eval host s =
      some (v, t) := by
    rw [eval_apply (by rw [hlocals]; rfl) hargs]
    exact hcall
  refine ⟨t, finish_of_next ?_, hadded, hkept.trans hlocals⟩
  rw [change]
  exact execBlock_cons_of_next (exec_run heval)

/-- **Free rerolls are given back** if their number is finite. -/
theorem givesBack (hlaws : RerollLaws host rerolls) {amount : Number}
    (hfinite : amount.isFinite = true) :
    (EffectBlocks.whileHeld (change amount) (change amount.opposite)).GivesBack host rerolls := by
  obtain ⟨a, ha, hopposite⟩ := Number.exists_literalValue hfinite
  intro s q hlocals hq
  obtain ⟨t, hgain, ht, htlocals⟩ := exists_finish_change hlaws amount hlocals
  refine ⟨t, hgain, htlocals, fun u d hulocals hu => ?_⟩
  obtain ⟨v, hloss, hv, -⟩ := exists_finish_change hlaws amount.opposite hulocals
  refine ⟨v, hloss, ?_⟩
  rw [hv, hu, ht, hq, ha, hopposite]
  simp only [ExactNumber.finite_add]
  congr 1
  ring

/-- **Infinitely many rerolls are not given back.** Taken from themselves they leave no number. -/
theorem not_givesBack (hlaws : RerollLaws host rerolls) {amount : Number} {negative : Bool}
    (hamount : amount.literalValue = .infinite negative) {s : State W} {q : ℚ}
    (hlocals : s.locals = []) (hq : rerolls s = .finite q) :
    ¬ (EffectBlocks.whileHeld (change amount) (change amount.opposite)).GivesBack host rerolls := by
  intro hback
  have hNaN : amount.isNaN = false := by
    cases hNaN : amount.isNaN with
    | false => rfl
    | true =>
        rw [Number.literalValue, if_pos hNaN] at hamount
        cases hamount
  obtain ⟨t, hgain, htlocals, hloss⟩ := hback s q hlocals hq
  obtain ⟨t', hgain', ht, -⟩ := exists_finish_change hlaws amount hlocals
  obtain rfl : t = t' := Option.some.inj (hgain.symm.trans hgain')
  rw [hq, hamount] at ht
  obtain ⟨v, hv, hrestored⟩ := hloss t 0 htlocals (by rw [ht]; rfl)
  obtain ⟨v', hv', hleft, -⟩ := exists_finish_change hlaws amount.opposite htlocals
  obtain rfl : v = v' := Option.some.inj (hv.symm.trans hv')
  rw [hrestored, ht, Number.literalValue_opposite hNaN, hamount] at hleft
  cases negative <;> cases hleft

end RerollGrant

end Rerolls

/-! ### Valid effects -/

/-- The amount of an effect, if its kind has one, after the parameter that it is read from. -/
def EffectKind.amount? : EffectKind → Option (String × Number)
  | discountItems discount => some ("discount_amount", discount.amount)
  | freeRerolls grant => some ("reroll_amount", grant.amount)
  | createJoker _ | destroyConsumable _ | editHand _ | modifyBlind _ | combineSuits _ => none

/-- The code of free rerolls gives them and takes them back. -/
theorem RerollGrant.run_compile {effect : Effect} {grant : RerollGrant}
    (hkind : effect.kind = .freeRerolls grant) (setting : Setting) (s : Storage) :
    ∃ code, (effect.compile setting .passive).run s = (.ok code, s) ∧
      code.body.blocks = .whileHeld (change grant.amount) (change grant.amount.opposite) := by
  rw [Effect.compile, hkind]
  exact ⟨_, rfl, rfl⟩

namespace DraftEffect

/-- The amount of a valid effect is read from its parameter. -/
theorem amount_eq {e : DraftEffect} {effect : Effect} (h : e.validate = .ok effect)
    {name : String} {a : Number} (ha : effect.kind.amount? = some (name, a)) :
    a = e.params.amount name := by
  have hreads := reads_of_validate h
  cases hkind : effect.kind <;> rw [hkind] at hreads ha
  case discountItems | freeRerolls =>
    obtain ⟨rfl, rfl⟩ := Prod.mk.inj (Option.some.inj ha)
    exact hreads
  all_goals cases ha

/-- **The amount of a valid effect** is never zero, and it is finite unless the number that is
given for it is not. Free rerolls with a finite amount are given back. -/
theorem amount_of_validate {e : DraftEffect} {effect : Effect} {name : String} {a : Number}
    (h : e.validate = .ok effect) (ha : effect.kind.amount? = some (name, a)) :
    a.isZero = false ∧
      (a.isFinite = true ↔ ∀ n, e.params.GivesNumber name n → n.isFinite = true) ∧
      ∀ grant, effect.kind = .freeRerolls grant → a.isFinite = true → ∀ setting s, ∃ code,
        (effect.compile setting .passive).run s = (.ok code, s) ∧
        ∀ (W : Type) (host : Host W) (rerolls : State W → ExactNumber),
          RerollLaws host rerolls → code.body.blocks.GivesBack host rerolls := by
  refine ⟨?_, ?_, fun grant hkind hfinite setting s => ?_⟩
  · rcases e.params.amount_cases name with ⟨n, -, hzero, hn⟩ | ⟨-, hone⟩
    · rw [amount_eq h ha, hn, hzero]
    · rw [amount_eq h ha, hone]
      rfl
  · rw [amount_eq h ha]
    rcases e.params.amount_cases name with ⟨n, hgives, -, hn⟩ | ⟨hzero, hone⟩
    · rw [hn]
      exact ⟨fun hfinite m hm => hgives.unique hm ▸ hfinite, fun hall => hall n hgives⟩
    · rw [hone]
      refine iff_of_true rfl fun n hn => ?_
      have hn := hzero n hn
      rw [Number.isZero, Bool.and_eq_true, beq_iff_eq] at hn
      simp [Number.isFinite, hn.1]
  · obtain ⟨code, hrun, hblocks⟩ := RerollGrant.run_compile hkind setting s
    obtain ⟨-, rfl⟩ := Prod.mk.inj (Option.some.inj (hkind ▸ ha))
    exact ⟨code, hrun, fun W host rerolls hlaws => hblocks ▸ RerollGrant.givesBack hlaws hfinite⟩

/-! ### Examples -/

/-- A game that counts free rerolls and does nothing else. -/
def rerollHost : Host ExactNumber where
  call name args s :=
    match name, args with
    | "SMODS.change_free_rerolls", [.number n] => some (.nil, { s with world := s.world.add n })
    | _, _ => none
  method _ _ _ _ := none

theorem rerollLaws : RerollLaws rerollHost fun s => s.world :=
  ⟨fun _ _ => ⟨.nil, _, rfl, rfl, rfl⟩⟩

/-- Free rerolls whose amount is given by a text. -/
def rerollDraft (amount : String) : DraftEffect :=
  { id := "rerolls", kind := "free_rerolls", params := [("reroll_amount", .str amount)] }

/-- The effect of free rerolls. -/
def rerollEffect (amount : Number) : Effect :=
  { id := ⟨"rerolls"⟩, kind := .freeRerolls { amount } }

theorem validate_rerollDraft (amount : String) :
    (rerollDraft amount).validate =
      .ok (rerollEffect ((rerollDraft amount).params.amount "reroll_amount")) :=
  rfl

/-- Two rerolls are given back, also when blanks are around their number. -/
theorem amount_of_validate_padded :
    (rerollDraft " 2 ").validate = .ok (rerollEffect Number.two) ∧
      ∀ setting s, ∃ code,
        ((rerollEffect Number.two).compile setting .passive).run s = (.ok code, s) ∧
        code.body.blocks.GivesBack rerollHost fun s => s.world := by
  have htwo : (rerollDraft " 2 ").params.amount "reroll_amount" = Number.two := by decide +kernel
  have hvalid := validate_rerollDraft " 2 "
  rw [htwo] at hvalid
  obtain ⟨-, hfinite, hback⟩ := amount_of_validate hvalid rfl
  have hgiven : (rerollDraft " 2 ").params.GivesNumber "reroll_amount" Number.two :=
    ⟨_, rfl, .numeral (by decide +kernel)⟩
  refine ⟨hvalid, fun setting s => ?_⟩
  obtain ⟨code, hrun, hcode⟩ := hback _ rfl
    (hfinite.mpr fun n hn => hgiven.unique hn ▸ rfl) setting s
  exact ⟨code, hrun, hcode _ _ _ rerollLaws⟩

/-- **An infinite amount is valid**, and its rerolls are not given back. -/
theorem exists_amount_infinite :
    ∃ (e : DraftEffect) (effect : Effect) (a : Number), e.validate = .ok effect ∧
      effect.kind.amount? = some ("reroll_amount", a) ∧ a.isFinite = false ∧
      ∀ setting s, ∃ code, (effect.compile setting .passive).run s = (.ok code, s) ∧
        ¬ code.body.blocks.GivesBack rerollHost fun s => s.world := by
  have hamount : (rerollDraft "inf").params.amount "reroll_amount" = Number.infinity false := by
    decide +kernel
  refine ⟨_, _, Number.infinity false, validate_rerollDraft "inf", ?_, rfl, fun setting s => ?_⟩
  · rw [hamount]
    rfl
  · rw [hamount]
    have hkind : (rerollEffect (Number.infinity false)).kind =
        .freeRerolls { amount := Number.infinity false } :=
      rfl
    obtain ⟨code, hrun, hblocks⟩ := RerollGrant.run_compile hkind setting s
    refine ⟨code, hrun, ?_⟩
    rw [hblocks]
    exact RerollGrant.not_givesBack rerollLaws rfl
      (s := { globals := fun _ => .nil, tables := fun _ => {}, fresh := 0, world := .finite 0 })
      rfl rfl

end DraftEffect

end JokerScript
