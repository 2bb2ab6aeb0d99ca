import JokerScript.Proofs.Held.Slots
import JokerScript.Proofs.Lua.Scope
import JokerScript.Proofs.Resolve.Vocabulary

/-!
# Names in Generated Code

Most names of generated code are fixed: the paths of the vocabulary, which begin at the
**globals** of the game or at a local variable, and the names of methods and fields. The
others are made from slots, and from the variables that a quantity names. A slot is one of
four bases with digits behind it, so all of them are identifiers.

## Main definitions

* `runtimeGlobals` — the variables of the game that generated code begins paths at.
* `localPaths` — the fixed paths that are not global.
* `slotBases` — the bases of slots.

## Main results

* `inScope_vocabulary` — the fixed paths are visible.
* `isIdentifier_slot` — the names that are made from slots.
* `isScoped_settled` — the expression of a quantity is well scoped.
-/

namespace JokerScript

open Lua

/-! ### Fixed names -/

/-- The variables of the game that generated code begins paths at. The card and the context
are the parameters of the function that the code is put into. -/
def runtimeGlobals : List String :=
  ["G", "card", "context", "SMODS", "Card", "math", "table", "card_eval_status_text",
    "ease_hands_played", "Event", "ipairs", "localize", "next", "number_format", "pairs",
    "pseudorandom", "pseudorandom_element", "pseudoseed", "tostring"]

/-- The fixed paths that begin at local variables, with these. -/
def localPaths : List (String × String) :=
  [("all_match", "all_match"), ("c", "c"), ("card_to_destroy", "card_to_destroy"),
    ("consumable", "consumable"), ("consumable.ability.set", "consumable"),
    ("consumable.config.center.key", "consumable"), ("created_joker", "created_joker"),
    ("hands_before", "hands_before"), ("joker_card", "joker_card"),
    ("removed_card", "removed_card"), ("suit_count", "suit_count"), ("suit_found", "suit_found"),
    ("target_cards", "target_cards"), ("v", "v"), ("v.set_cost", "v")]

/-- **The fixed paths are visible** wherever the globals are, if they do not begin at a local
variable. -/
theorem inScope_vocabulary {names : List String} (h : runtimeGlobals ⊆ names) :
    ∀ p ∈ vocabulary, p ∉ localPaths.map Prod.fst → InScope names p := by
  have hglobals : ∀ p ∈ vocabulary, InScope runtimeGlobals p ∨ p ∈ localPaths.map Prod.fst := by
    decide +kernel
  exact fun p hp hlocal => ((hglobals p hp).resolve_right hlocal).mono h

/-! ### Slots -/

/-- The bases of the names that conditions and effects claim. -/
def slotBases : List String := ["blind_size", "count", "hand_change", "hands"]

/-- **The names that are made from slots** are identifiers. -/
theorem isIdentifier_slot {base : String} (hbase : base ∈ slotBases) (s : Storage)
    (suffixes : List String) (suffix : String) (hsuffix : suffix.toList.all isNameChar = true) :
    isIdentifier (s.claimedName base suffixes ++ suffix) = true := by
  have hbases : ∀ base ∈ slotBases, isNameShape base.toList = true ∧
      ∀ k ∈ keywords, ¬base.toList <+: k.toList := by
    decide
  obtain ⟨n, hn⟩ := s.claimedName_eq_candidate base suffixes
  obtain ⟨digits, hdigits, hlist⟩ := Storage.candidate_toList base n
  have happend :
      s.claimedName base suffixes ++ suffix = base ++ (String.ofList digits ++ suffix) := by
    apply String.toList_inj.mp
    rw [hn, String.toList_append, hlist, String.toList_append, String.toList_append,
      String.toList_ofList, List.append_assoc]
  rw [happend]
  refine isIdentifier_append (hbases base hbase).1 ?_ (hbases base hbase).2
  rw [String.toList_append, String.toList_ofList, List.all_append, hsuffix, Bool.and_true]
  exact List.all_eq_true.mpr fun c hc => isNameChar_of_isDigit (hdigits c hc)

/-- A variable of the joker is visible if its name is an identifier. -/
theorem inScope_extra {names : List String} (hnames : runtimeGlobals ⊆ names) {name : String}
    (h : isIdentifier name = true) : InScope names ("card.ability.extra." ++ name) := by
  have hsplit : "card.ability.extra." ++ name = "card.ability.extra" ++ "." ++ name := by
    apply String.toList_inj.mp
    simp [String.toList_append]
  have hroot : pathRoot "card.ability.extra" = "card" := by decide
  have hdotted : isDotted "card.ability.extra" = true := by decide
  rw [hsplit, InScope, isDotted_append, pathRoot_append, hroot, hdotted,
    isDotted_of_isIdentifier h]
  exact ⟨rfl, hnames (by decide)⟩

/-! ### Quantities -/

section Quantities

variable {names : List String}

theorem GameState.Reading.isScoped_expr (hnames : runtimeGlobals ⊆ names) {token : String}
    {reading : GameState.Reading} (h : (token, reading) ∈ GameState.readings) :
    reading.expr.IsScoped names := by
  have hpaths : ∀ p ∈ GameState.readings, ∀ u ∈ p.2.expr.uses, InScope runtimeGlobals u.path := by
    decide
  have huses := hpaths _ h
  cases reading with
  | field path => exact (huses ⟨path, false⟩ List.mem_cons_self).mono hnames
  | count path => exact (huses ⟨path, false⟩ List.mem_cons_self).mono hnames

theorem GameVar.isScoped_expr (hnames : runtimeGlobals ⊆ names) {v : GameVar} {e : Expr}
    (he : v.expr? = some e) : e.IsScoped names := by
  obtain ⟨reading, hmem, rfl⟩ := exists_reading he
  have hreading : reading.expr.IsScoped names := reading.isScoped_expr hnames hmem
  have hscaled : (scaled reading.expr v.multiplier).IsScoped names := by
    rw [scaled]
    split
    · exact hreading
    · exact ⟨hreading, trivial⟩
  rw [shifted]
  split
  · exact hscaled
  · split
    · exact ⟨hscaled, trivial⟩
    · exact ⟨hscaled, trivial⟩

variable (naming : Naming) {request : ResolveRequest} {rangeName : String} (s : Storage)
  (q : Quantity)

/-- **The expression of a quantity is well scoped**, if the names that it may be kept under are
identifiers. A variable that it names itself is an identifier in any case. -/
theorem isScoped_settled (hnames : runtimeGlobals ⊆ names)
    (hname : request.policy = .declared → isIdentifier request.name = true)
    (hmin : isIdentifier (Resolved.minName rangeName) = true)
    (hmax : isIdentifier (Resolved.maxName rangeName) = true) :
    ((Source.ofQuantity q).settled naming request s rangeName).expr.IsScoped names := by
  have hliteral : ∀ n : Number, (request.literal n).expr.IsScoped names := by
    intro n
    rw [ResolveRequest.literal]
    split
    · rename_i hpolicy
      exact inScope_extra hnames (hname hpolicy)
    · exact Expr.isScoped_number n
  cases hq : Source.ofQuantity q with
  | gameVar v =>
      rw [Source.settled]
      split
      · rename_i e he
        exact GameVar.isScoped_expr hnames he
      · exact hliteral _
  | range min max =>
      have hdraw := inScope_vocabulary hnames "pseudorandom" (by decide) (by decide)
      simp [Source.settled, Resolved.expr, hdraw, inScope_extra hnames hmin,
        inScope_extra hnames hmax]
  | named name =>
      rw [Source.settled]
      split
      · exact inScope_extra hnames (isIdentifier_of_named hq)
      · exact hliteral _
  | number n => exact hliteral n
  | unresolved => exact hliteral _

end Quantities

end JokerScript
