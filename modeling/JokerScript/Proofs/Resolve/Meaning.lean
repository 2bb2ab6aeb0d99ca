import JokerScript.Proofs.Lua.Spelling
import JokerScript.Proofs.Lua.Uses
import JokerScript.Proofs.Resolve.Settled

/-!
# What Quantities Mean

A quantity is a number, or a text in one of four ways of writing. Here stands what each of them
means, told by the shape of the text alone: nothing is said about the order in which a reader
tries them. No order is needed, since no text is written in two of the ways.

## Main definitions

* `PieceGives` — the number that a piece of a text gives, or fails to give.
* `Meaning`, `Quantity.StandsFor` — what a quantity stands for.

## Main results

* `standsFor_iff` — the reader of quantities finds what they stand for.
* `Quantity.StandsFor.unique` — no quantity stands for two things.
-/

namespace JokerScript

open Lua

/-! ### Meanings -/

/-- The number that a piece of a text is a numeral of. Blanks around the numeral do not
matter. -/
def numeral? (piece : List Char) : Option Number := Number.readChars? (trimChars piece)

/-- The number that a piece of a text **gives**. A piece that is missing, or that is no numeral,
gives the default. -/
inductive PieceGives (default : Number) : Option (List Char) → Number → Prop
  | numeral {piece : List Char} {n : Number} (h : numeral? piece = some n) :
    PieceGives default (some piece) n
  | malformed {piece : List Char} (h : numeral? piece = none) :
    PieceGives default (some piece) default
  | missing : PieceGives default none default

/-- What a quantity may stand for. -/
inductive Meaning
  | constant (n : Number)
  /-- A number of the game, times a factor and plus an offset. -/
  | scaled (token : String) (multiplier offset : Number)
  /-- A random number between two bounds. -/
  | draw (min max : Number)
  /-- The number in a variable of the joker. -/
  | stored (name : String)
deriving DecidableEq, Repr

/-- The text is the first piece and the other ones, with bars between them. -/
def IsBarred (cs first : List Char) (others : List (List Char)) : Prop :=
  cs = first ++ others.flatMap ('|' :: ·) ∧ ∀ piece ∈ first :: others, '|' ∉ piece

/-- **What a quantity stands for**, when `s` is the storage of the joker. A text counts without
the blanks around it. -/
inductive Quantity.StandsFor (s : Storage) : Quantity → Meaning → Prop
  | number {n : Number} (hn : n.isFinite = true) : StandsFor s (.number n) (.constant n)
  | numeral {text : String} {n : Number} (h : numeral? text.toList = some n)
    (hn : n.isFinite = true) : StandsFor s (.text text) (.constant n)
  | game {text : String} {rest token : List Char} {others : List (List Char)} {m o : Number}
    (h : trimChars text.toList = gameVarLead.toList ++ rest) (hrest : IsBarred rest token others)
    (hknown : String.ofList (trimChars token) ∈ GameState.readings.map Prod.fst)
    (hm : PieceGives Number.one others[0]? m) (ho : PieceGives (Number.zero false) others[1]? o) :
    StandsFor s (.text text) (.scaled (String.ofList (trimChars token)) m o)
  | range {text : String} {rest min : List Char} {others : List (List Char)} {a b : Number}
    (h : trimChars text.toList = rangeLead.toList ++ rest) (hrest : IsBarred rest min others)
    (ha : PieceGives Number.one (some min) a) (hb : PieceGives Number.five others[0]? b) :
    StandsFor s (.text text) (.draw a b)
  | stored {text name : String} (h : trimChars text.toList = name.toList)
    (hname : isIdentifier name = true) (hdeclared : name ∈ s.names) :
    StandsFor s (.text text) (.stored name)

/-! ### Pieces -/

theorem numeralOr_eq_iff {default n : Number} {piece : Option (List Char)} :
    numeralOr default piece = n ↔ PieceGives default piece n := by
  constructor
  · rintro rfl
    cases piece with
    | none => exact .missing
    | some cs =>
        cases hcs : numeral? cs with
        | none =>
            have hdefault : numeralOr default (some cs) = default := congrArg (·.getD default) hcs
            rw [hdefault]
            exact .malformed hcs
        | some n =>
            have hn : numeralOr default (some cs) = n := congrArg (·.getD default) hcs
            rw [hn]
            exact .numeral hcs
  · intro h
    cases h with
    | numeral h => exact congrArg (·.getD default) h
    | malformed h => exact congrArg (·.getD default) h
    | missing => rfl

/-- The pieces between bars are found. -/
theorem splitAt_eq_iff {cs first : List Char} {others : List (List Char)} :
    splitAt '|' cs = (first, others) ↔ IsBarred cs first others := by
  constructor
  · intro h
    have hpieces : ∀ cs : List Char, ∀ piece ∈ (splitAt '|' cs).1 :: (splitAt '|' cs).2,
        '|' ∉ piece := by
      intro cs
      induction cs with
      | nil => simp [splitAt]
      | cons c cs ih =>
          rw [splitAt]
          by_cases hc : c = '|'
          · simpa [hc] using ih
          · rw [List.forall_mem_cons] at ih ⊢
            simpa [hc, Ne.symm hc] using ih
    have htext := toList_splitAt '|' cs
    have hnone := hpieces cs
    rw [h] at htext hnone
    exact ⟨htext, hnone⟩
  · rintro ⟨rfl, hbars⟩
    induction others generalizing first with
    | nil =>
        rw [List.flatMap_nil, List.append_nil]
        exact splitAt_of_notMem (hbars first List.mem_cons_self)
    | cons second others ih =>
        rw [List.forall_mem_cons] at hbars
        rw [List.flatMap_cons, List.cons_append, splitAt_append, ih hbars.2,
          splitAt_of_notMem hbars.1, List.nil_append]

/-! ### Ways of writing -/

/-- A text that begins as a name does is a numeral only if it is the name of a number. -/
theorem readChars?_of_isNameStart {c : Char} (hc : isNameStart c = true) (cs : List Char) :
    Number.readChars? (c :: cs) = Number.readName? false (c :: cs) := by
  have hdigit : c.isDigit = false := not_isDigit_of_isNameStart hc
  have hne : ∀ d ∈ ['-', '+', '.'], ∀ ds : List Char, c :: cs ≠ d :: ds := by
    intro d hd ds heq
    obtain ⟨rfl, -⟩ := List.cons.inj heq
    have hnot : ∀ d ∈ ['-', '+', '.'], isNameStart d = false := by simp [isNameStart]
    rw [hnot c hd] at hc
    cases hc
  have hsign : Number.splitSign (c :: cs) = (false, c :: cs) := by
    rw [Number.splitSign]
    · exact hne '-' (by simp)
    · exact hne '+' (by simp)
  have hfraction : Number.splitFraction (c :: cs) = ([], c :: cs) := by
    rw [Number.splitFraction]
    exact hne '.' (by simp)
  have hunsigned : Number.readUnsigned? false (c :: cs) = none := by
    simp [Number.readUnsigned?, List.span_eq_takeWhile_dropWhile, hdigit, hfraction]
  rw [Number.readChars?, hsign]
  simp only [hunsigned, Option.orElse_none]

/-- No numeral of a finite number begins as a name does. -/
theorem not_isFinite_of_isNameStart {c : Char} (hc : isNameStart c = true) {cs : List Char}
    {n : Number} (h : Number.readChars? (c :: cs) = some n) : n.isFinite = false := by
  rw [readChars?_of_isNameStart hc, Number.readName?] at h
  split at h
  · obtain rfl := Option.some.inj h
    rfl
  · split at h
    · obtain rfl := Option.some.inj h
      rfl
    · cases h

/-- What begins as a name does, but not as the name of a number, is no numeral. -/
theorem readChars?_eq_none {c : Char} (hc : isNameStart c = true) (hlower : c.toLower ∉ ['i', 'n'])
    (cs : List Char) : Number.readChars? (c :: cs) = none := by
  have hne : ∀ word : List Char, word.head? ∈ [some 'i', some 'n'] →
      (c :: cs).map Char.toLower ≠ word := by
    rintro _ hhead rfl
    simp only [List.map_cons, List.head?_cons, List.mem_cons, Option.some.injEq] at hhead
    simp only [List.mem_cons] at hlower
    tauto
  rw [readChars?_of_isNameStart hc, Number.readName?]
  rw [if_neg (not_or.mpr ⟨hne _ (by decide), hne _ (by decide)⟩), if_neg (hne _ (by decide))]

theorem exists_cons_of_isIdentifier {name : String} (h : isIdentifier name = true) :
    ∃ c cs, name.toList = c :: cs ∧ isNameStart c = true ∧ ':' ∉ c :: cs := by
  rw [isIdentifier, Bool.and_eq_true] at h
  obtain ⟨hshape, -⟩ := h
  cases hname : name.toList with
  | nil =>
      rw [hname] at hshape
      cases hshape
  | cons c cs =>
      rw [hname, isNameShape, Bool.and_eq_true, List.all_eq_true] at hshape
      obtain ⟨hstart, hall⟩ := hshape
      refine ⟨c, cs, rfl, hstart, fun hcolon => ?_⟩
      rcases List.mem_cons.mp hcolon with rfl | hmem
      · exact absurd hstart (by decide)
      · exact absurd (hall ':' hmem) (by decide)

section Text

variable {cs rest first : List Char} {others : List (List Char)}

theorem ofChars_game (h : cs = Quantity.gameVarLead.toList ++ rest)
    (hrest : IsBarred rest first others) :
    Source.ofChars cs = .gameVar
      { token := String.ofList (trimChars first)
        multiplier := numeralOr Number.one others[0]?
        offset := numeralOr (Number.zero false) others[1]? } := by
  rw [Source.ofChars, GameVar.ofChars?, afterLead?_eq_some.mpr h, Option.map_some,
    splitAt_eq_iff.mpr hrest]

theorem ofChars_range (h : cs = Quantity.rangeLead.toList ++ rest)
    (hrest : IsBarred rest first others) :
    Source.ofChars cs =
      .range (numeralOr Number.one (some first)) (numeralOr Number.five others[0]?) := by
  have hgame : GameVar.ofChars? cs = none := by
    rw [h, GameVar.ofChars?]
    rfl
  rw [Source.ofChars, hgame, afterLead?_eq_some.mpr h]
  simp only [Source.ofBounds, splitAt_eq_iff.mpr hrest]
  rfl

/-- A text without a lead is a name or a numeral. -/
theorem ofChars_of_forall_ne (hgame : ∀ rest, cs ≠ Quantity.gameVarLead.toList ++ rest)
    (hrange : ∀ rest, cs ≠ Quantity.rangeLead.toList ++ rest) :
    Source.ofChars cs =
      if isIdentifier (String.ofList cs) then .named (String.ofList cs)
      else match Number.readChars? cs with
        | some n => Source.ofNumber n
        | none => .unresolved := by
  have hnone : ∀ lead, (∀ rest, cs ≠ lead ++ rest) → afterLead? lead cs = none := by
    intro lead hlead
    rw [Option.eq_none_iff_forall_ne_some]
    exact fun rest h => hlead rest (afterLead?_eq_some.mp h)
  rw [Source.ofChars, GameVar.ofChars?, hnone _ hgame, hnone _ hrange]
  rfl

theorem ofChars_identifier {name : String} (hname : isIdentifier name = true) :
    Source.ofChars name.toList = .named name := by
  obtain ⟨c, cs, hcs, -, hcolon⟩ := exists_cons_of_isIdentifier hname
  have hne : ∀ lead : List Char, ':' ∈ lead → ∀ rest, name.toList ≠ lead ++ rest := by
    intro lead hlead rest heq
    rw [← hcs, heq] at hcolon
    exact hcolon (List.mem_append_left _ hlead)
  rw [ofChars_of_forall_ne (hne _ (by decide)) (hne _ (by decide)), String.ofList_toList,
    if_pos hname]

theorem ofChars_numeral {n : Number} (h : Number.readChars? cs = some n)
    (hn : n.isFinite = true) : Source.ofChars cs = .number n := by
  have hstart : ∀ c rest, cs = c :: rest → isNameStart c ≠ true := by
    rintro c rest rfl hc
    rw [not_isFinite_of_isNameStart hc h] at hn
    cases hn
  have hname : ¬isIdentifier (String.ofList cs) = true := by
    intro hname
    obtain ⟨c, rest, hcs, hc, -⟩ := exists_cons_of_isIdentifier hname
    exact hstart c rest (by rw [← hcs, String.toList_ofList]) hc
  rw [ofChars_of_forall_ne, if_neg hname, h]
  · exact if_pos hn
  · exact fun rest heq => hstart 'G' _ heq (by decide)
  · exact fun rest heq => hstart 'R' _ heq (by decide)

end Text

/-! ### The reader of quantities -/

namespace Source

/-- What a source stands for. An unknown token and a name without a variable stand for
nothing. -/
def meaning? (s : Storage) : Source → Option Meaning
  | gameVar v =>
    if v.token ∈ GameState.readings.map Prod.fst then
      some (.scaled v.token v.multiplier v.offset)
    else
      none
  | range min max => some (.draw min max)
  | named name => if name ∈ s.names then some (.stored name) else none
  | number n => some (.constant n)
  | unresolved => none

variable {s : Storage} {m : Meaning}

theorem meaning?_gameVar {v : GameVar} : (gameVar v).meaning? s = some m ↔
    v.token ∈ GameState.readings.map Prod.fst ∧ m = .scaled v.token v.multiplier v.offset := by
  rw [meaning?, Option.ite_none_right_eq_some, Option.some.injEq, eq_comm]

theorem meaning?_named {name : String} :
    (named name).meaning? s = some m ↔ name ∈ s.names ∧ m = .stored name := by
  rw [meaning?, Option.ite_none_right_eq_some, Option.some.injEq, eq_comm]

theorem meaning?_ofNumber {n : Number} :
    (ofNumber n).meaning? s = some m ↔ n.isFinite = true ∧ m = .constant n := by
  rw [ofNumber]
  split
  · rename_i hn
    simp [meaning?, hn, eq_comm]
  · rename_i hn
    simp [meaning?, hn]

end Source

variable {s : Storage} {q : Quantity} {m : Meaning}

theorem Quantity.StandsFor.meaning? (h : q.StandsFor s m) :
    (Source.ofQuantity q).meaning? s = some m := by
  cases h with
  | number hn => exact Source.meaning?_ofNumber.mpr ⟨hn, rfl⟩
  | numeral h hn => rw [Source.ofQuantity, ofChars_numeral h hn, Source.meaning?]
  | game h hrest hknown hm ho =>
      rw [Source.ofQuantity, ofChars_game h hrest, numeralOr_eq_iff.mpr hm,
        numeralOr_eq_iff.mpr ho, Source.meaning?, if_pos hknown]
  | range h hrest ha hb =>
      rw [Source.ofQuantity, ofChars_range h hrest, numeralOr_eq_iff.mpr ha,
        numeralOr_eq_iff.mpr hb, Source.meaning?]
  | stored h hname hdeclared =>
      rw [Source.ofQuantity, h, ofChars_identifier hname, Source.meaning?, if_pos hdeclared]

/-- **The reader of quantities** finds what they stand for. -/
theorem standsFor_iff : q.StandsFor s m ↔ (Source.ofQuantity q).meaning? s = some m := by
  refine ⟨Quantity.StandsFor.meaning?, fun h => ?_⟩
  cases q with
  | number n =>
      obtain ⟨hn, rfl⟩ := Source.meaning?_ofNumber.mp h
      exact .number hn
  | text text =>
      rw [Source.ofQuantity] at h
      by_cases hgame : ∃ rest, trimChars text.toList = Quantity.gameVarLead.toList ++ rest
      · obtain ⟨rest, htext⟩ := hgame
        have hrest : IsBarred rest _ _ := splitAt_eq_iff.mp rfl
        rw [ofChars_game htext hrest] at h
        obtain ⟨hknown, rfl⟩ := Source.meaning?_gameVar.mp h
        exact .game htext hrest hknown (numeralOr_eq_iff.mp rfl) (numeralOr_eq_iff.mp rfl)
      by_cases hrange : ∃ rest, trimChars text.toList = Quantity.rangeLead.toList ++ rest
      · obtain ⟨rest, htext⟩ := hrange
        have hrest : IsBarred rest _ _ := splitAt_eq_iff.mp rfl
        rw [ofChars_range htext hrest] at h
        obtain rfl := Option.some.inj h
        exact .range htext hrest (numeralOr_eq_iff.mp rfl) (numeralOr_eq_iff.mp rfl)
      rw [not_exists] at hgame hrange
      rw [ofChars_of_forall_ne hgame hrange] at h
      split at h
      · rename_i hname
        obtain ⟨hdeclared, rfl⟩ := Source.meaning?_named.mp h
        exact .stored (String.toList_ofList).symm hname hdeclared
      · split at h
        · rename_i n hread
          obtain ⟨hn, rfl⟩ := Source.meaning?_ofNumber.mp h
          exact .numeral hread hn
        · cases h

/-- **No quantity stands for two things.** -/
theorem Quantity.StandsFor.unique {m' : Meaning} (h : q.StandsFor s m) (h' : q.StandsFor s m') :
    m = m' :=
  Option.some.inj (h.meaning?.symm.trans h'.meaning?)

/-! ### Settled quantities -/

/-- The tokens that have an expression. -/
theorem GameVar.expr?_eq_none {v : GameVar} :
    v.expr? = none ↔ v.token ∉ GameState.readings.map Prod.fst := by
  rw [expr?, Option.map_eq_none_iff, GameState.expr?, Option.map_eq_none_iff,
    List.lookup_eq_none_iff]
  constructor
  · rintro h hmem
    obtain ⟨p, hp, htoken⟩ := List.mem_map.mp hmem
    exact bne_iff_ne.mp (h p hp) htoken.symm
  · intro h p hp
    exact bne_iff_ne.mpr fun htoken => h (htoken ▸ List.mem_map_of_mem hp)

theorem GameVar.exists_expr {v : GameVar} (h : v.token ∈ GameState.readings.map Prod.fst) :
    ∃ e, v.expr? = some e :=
  Option.ne_none_iff_exists'.mp fun hnone => expr?_eq_none.mp hnone h

section Settled

variable (naming : Naming) (request : ResolveRequest) (s : Storage) (rangeName : String)

/-- What stands for nothing counts as zero. -/
theorem settled_of_meaning?_eq_none {source : Source} (h : source.meaning? s = none) :
    source.settled naming request s rangeName = request.literal (Number.zero false) := by
  cases source with
  | gameVar v =>
      have hunknown : v.expr? = none := by
        rw [GameVar.expr?_eq_none]
        intro hmem
        rw [Source.meaning?, if_pos hmem] at h
        cases h
      simp only [Source.settled, hunknown]
  | range min max => cases h
  | named name =>
      have hname : ¬s.isDeclared name = true := by
        rw [Storage.isDeclared_iff]
        intro hmem
        rw [Source.meaning?, if_pos hmem] at h
        cases h
      rw [Source.settled, if_neg hname]
  | number n => cases h
  | unresolved => rfl

theorem settled_of_stored {source : Source} {name : String}
    (h : source.meaning? s = some (.stored name)) :
    source.settled naming request s rangeName = .named name := by
  cases source with
  | named other =>
      obtain ⟨hname, hother⟩ := Source.meaning?_named.mp h
      obtain rfl : name = other := Meaning.stored.inj hother
      rw [Source.settled, if_pos ((s.isDeclared_iff name).mpr hname)]
  | gameVar v => cases (Source.meaning?_gameVar.mp h).2
  | range | number | unresolved => cases h

/-- A quantity that stands for nothing counts as zero. -/
theorem settled_of_forall_not_standsFor {q : Quantity} (h : ∀ m, ¬q.StandsFor s m) :
    (Source.ofQuantity q).settled naming request s rangeName =
      request.literal (Number.zero false) := by
  refine settled_of_meaning?_eq_none naming request s rangeName ?_
  exact Option.eq_none_iff_forall_ne_some.mpr fun m hm => h m (standsFor_iff.mpr hm)

end Settled

end JokerScript
