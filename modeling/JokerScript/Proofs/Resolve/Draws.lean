import JokerScript.Proofs.Lua.Draws
import JokerScript.Proofs.Resolve.Scoped

/-!
# Random Streams

The name of a random stream is put together from the prefix of the mod, the name of the draw,
and the short id of its owner, with underscores between them. Names and ids may hold
underscores themselves, so that different parts could spell one text. They do not: the name of
a draw is one of a few bases with digits behind it, and no such name, with an underscore behind
it, begins another one.

## Main definitions

* `Draw`, `Draw.seed`, `Draw.call` — a random draw, its stream, and the call that draws.
* `IsStreamName` — a base of a name, with digits behind it.
* `Source.draw?` — the draw of a quantity.

## Main results

* `Naming.seed_inj` — the name and the short id can be told from the stream.
* `Source.draws_settled` — the draws in the expression of a quantity.
-/

namespace JokerScript

open Lua

/-! ### Draws -/

/-- A random draw, with the id of the rule or effect that it belongs to. -/
inductive Draw where
  /-- A number between the bounds of a slot. -/
  | number (slot owner : String)
  /-- One of the consumables that an effect may destroy. -/
  | consumable (owner : String)
deriving DecidableEq, Repr

namespace Draw

/-- The name that the stream is called by. -/
def name : Draw → String
  | number slot _ => slot
  | consumable _ => "destroy_consumable"

/-- The id of the rule or effect. -/
def owner : Draw → String
  | number _ owner => owner
  | consumable owner => owner

/-- Is a number drawn? -/
def isNumber : Draw → Bool
  | number .. => true
  | consumable _ => false

/-- The stream that is drawn from. -/
def seed (naming : Naming) (d : Draw) : String := naming.seed d.name d.owner

/-- The call that draws. -/
def call (naming : Naming) (d : Draw) : DrawCall :=
  match d with
  | number slot _ =>
    ⟨"pseudorandom",
      [.str (d.seed naming), .extra (Resolved.minName slot), .extra (Resolved.maxName slot)]⟩
  | consumable _ => ⟨"pseudoseed", [.str (d.seed naming)]⟩

end Draw

/-! ### Quantities -/

/-- The draw of a quantity, if it is drawn. -/
def Source.draw? (slot owner : String) : Source → Option Draw
  | range .. => some (.number slot owner)
  | gameVar _ | named _ | number _ | unresolved => none

theorem GameState.Reading.draws_expr (reading : GameState.Reading) : reading.expr.draws = [] := by
  cases reading <;> rfl

theorem GameVar.draws_expr {v : GameVar} {e : Expr} (he : v.expr? = some e) : e.draws = [] := by
  obtain ⟨reading, -, rfl⟩ := exists_reading he
  have hscaled : (scaled reading.expr v.multiplier).draws = [] := by
    rw [scaled]
    split
    · exact reading.draws_expr
    · simp [Expr.times, reading.draws_expr]
  rw [shifted]
  split
  · exact hscaled
  · split
    · simp [Expr.minus, hscaled]
    · simp [Expr.plus, hscaled]

/-- A quantity that reads the same each time is not drawn. -/
theorem Source.draw?_of_isStable {naming : Naming} {request : ResolveRequest} {s : Storage}
    {slot : String} {source : Source}
    (h : (source.settled naming request s slot).isStable = true) :
    source.draw? slot request.owner = none := by
  cases source with
  | range min max => cases h
  | gameVar | named | number | unresolved => rfl

/-- **The draws in the expression of a quantity.** -/
theorem Source.draws_settled (naming : Naming) (request : ResolveRequest) (s : Storage)
    (slot : String) (source : Source) :
    (source.settled naming request s slot).expr.draws =
      ((source.draw? slot request.owner).map (Draw.call naming)).toList := by
  have hliteral : ∀ n : Number, (request.literal n).expr.draws = [] := by
    intro n
    rw [ResolveRequest.literal]
    split <;> rfl
  cases source with
  | gameVar v =>
      rw [settled]
      split
      · rename_i e he
        exact GameVar.draws_expr he
      · exact hliteral _
  | range min max =>
      simp [settled, Resolved.expr, callDraws, drawCallees, draw?, Draw.call, Draw.seed, Draw.name,
        Draw.owner]
  | named name =>
      rw [settled]
      split
      · rfl
      · exact hliteral _
  | number n => exact hliteral n
  | unresolved => exact hliteral _

/-! ### Names of streams -/

/-- The bases of the names of streams. -/
def streamBases : List String := "destroy_consumable" :: slotBases

/-- The text is a base of names, with digits behind it. -/
def IsStreamName (name : String) : Prop :=
  ∃ base ∈ streamBases, ∃ digits : List Char,
    (∀ c ∈ digits, c.isDigit = true) ∧ name.toList = base.toList ++ digits

theorem isStreamName_slot {base : String} (hbase : base ∈ slotBases) (s : Storage)
    (suffixes : List String) : IsStreamName (s.claimedName base suffixes) := by
  obtain ⟨n, hn⟩ := s.claimedName_eq_candidate base suffixes
  obtain ⟨digits, hdigits, hlist⟩ := Storage.candidate_toList base n
  exact ⟨base, List.mem_cons_of_mem _ hbase, digits, hdigits, by rw [hn, hlist]⟩

theorem isStreamName_destroyConsumable : IsStreamName "destroy_consumable" :=
  ⟨_, List.mem_cons_self, [], nofun, (List.append_nil _).symm⟩

/-- What ends in a letter that the second part does not hold ends in the first part. -/
theorem prefix_of_prefix_append {p first second : List Char} {c : Char}
    (h : p ++ [c] <+: first ++ second) (hc : c ∉ second) : p ++ [c] <+: first := by
  rcases List.prefix_or_prefix_of_prefix h (List.prefix_append first second) with hp | hfirst
  · exact hp
  · rcases List.prefix_concat_iff.mp hfirst with rfl | ⟨middle, rfl⟩
    · exact List.prefix_refl _
    · rw [List.append_assoc, List.prefix_append_right_inj] at h
      exact absurd (h.subset (List.mem_append_right _ List.mem_cons_self)) hc

namespace IsStreamName

variable {a b : String}

/-- **No name goes on from another one with an underscore.** The underscore would stand in the
base of the longer name, with no digits before it, so that the base of the longer name would go
on from the other base. -/
theorem not_prefix (ha : IsStreamName a) (hb : IsStreamName b) :
    ¬(a.toList ++ ['_']) <+: b.toList := by
  have hbases : ∀ base ∈ streamBases, (base.toList.all fun c => !c.isDigit) = true ∧
      ∀ other ∈ streamBases, ¬(base.toList ++ ['_']) <+: other.toList := by
    decide
  obtain ⟨base, hbase, digits, hdigits, ha⟩ := ha
  obtain ⟨other, hother, more, hmore, hb⟩ := hb
  intro hprefix
  rw [ha, hb] at hprefix
  have hnotMem : '_' ∉ more := fun hmem => absurd (hmore '_' hmem) (by decide)
  -- An underscore is no digit, so this one stands in the base of the longer name.
  have hinside : base.toList ++ digits ++ ['_'] <+: other.toList :=
    prefix_of_prefix_append hprefix hnotMem
  cases digits with
  | nil =>
      rw [List.append_nil] at hinside
      exact (hbases base hbase).2 other hother hinside
  | cons d ds =>
      -- A base holds no digit that could stand before the underscore.
      have hmem : d ∈ other.toList := hinside.subset (by simp)
      have hnot := List.all_eq_true.mp (hbases other hother).1 d hmem
      simp [hdigits d List.mem_cons_self] at hnot

theorem eq_of_prefix (ha : IsStreamName a) (hb : IsStreamName b)
    (h : a.toList ++ ['_'] <+: b.toList ++ ['_']) : a = b := by
  rcases List.prefix_concat_iff.mp h with heq | hprefix
  · exact String.toList_inj.mp (List.append_cancel_right heq)
  · exact absurd hprefix (ha.not_prefix hb)

/-- A name can be told from the text that it begins, up to an underscore. -/
theorem append_inj (ha : IsStreamName a) (hb : IsStreamName b) {x y : List Char}
    (h : a.toList ++ '_' :: x = b.toList ++ '_' :: y) : a = b ∧ x = y := by
  have hbegin : ∀ ts us : List Char, ts ++ ['_'] <+: ts ++ '_' :: us := fun ts us =>
    (List.prefix_append_right_inj ts).mpr ⟨us, rfl⟩
  have hname : a = b := by
    rcases List.prefix_or_prefix_of_prefix (h ▸ hbegin a.toList x) (hbegin b.toList y) with
      hab | hba
    · exact ha.eq_of_prefix hb hab
    · exact (hb.eq_of_prefix ha hba).symm
  subst hname
  exact ⟨rfl, (List.cons.inj (List.append_cancel_left h)).2⟩

end IsStreamName

/-- **The name and the short id can be told from the stream.** -/
theorem Naming.seed_inj (naming : Naming) {a b : String} (ha : IsStreamName a)
    (hb : IsStreamName b) {x y : String} :
    naming.seed a x = naming.seed b y ↔ a = b ∧ shortId x = shortId y := by
  constructor
  · intro h
    rw [← String.toList_inj, seed, seed] at h
    simp only [String.toList_append, List.append_assoc, List.append_cancel_left_eq] at h
    obtain ⟨hname, hid⟩ := ha.append_inj hb h
    exact ⟨hname, String.toList_inj.mp hid⟩
  · rintro ⟨rfl, hid⟩
    rw [seed, seed, hid]

end JokerScript
