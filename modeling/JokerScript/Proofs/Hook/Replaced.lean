import JokerScript.Proofs.Hook.Ledger
import JokerScript.Proofs.Lua.Calls

/-!
# Replaced Functions at Work

The replacement of a function of the game is text, which is run once, when the mod is loaded. It
saves the function and puts a closure in its place. This module says which closure that is, and
how the blocks of the requests run in it: each asks the game whether its owner is held, and only
then makes its change. So all blocks together make a fold over the requests whose owner is held,
in their order.

What a change does is left open here. It is told by the states that matter, a family `base`, and
the step from one member of the family to another.

## Main definitions

* `replacement?` — the function that the game has after requests were merged.
* `Replaceable` — the states in which the replacement may be loaded.
* `Lua.Host.FindsHeld` — the game finds the jokers that are held.
* `CarriesOut` — changes make steps.

## Main results

* `replacement?_eq_some` — the closure in place of a function.
* `CarriesOut.exec_blocks`, `CarriesOut.exec_changes` — the run of all blocks.
-/

namespace JokerScript

open Lua

variable {W : Type} {host : Host W} {naming : Naming} {category : HookCategory}

/-! ### Loading a replacement -/

namespace HookCategory

/-- The path of the function that a category replaces. -/
def function : HookCategory → String
  | discountItems => "Card.set_cost"
  | combineSuits => "Card.is_suit"

/-- The local variable that keeps the replaced function. -/
def reference : HookCategory → String
  | discountItems => "card_set_cost_ref"
  | combineSuits => "card_is_suit_ref"

/-- The name of the replaced function among the methods of cards. -/
def method : HookCategory → String
  | discountItems => "set_cost"
  | combineSuits => "is_suit"

theorem functionPath_target (category : HookCategory) :
    functionPath category.template.target = category.function := by
  cases category <;> decide +kernel

theorem referenceName_target (category : HookCategory) :
    referenceName category.template.target = category.reference := by
  cases category <;> decide +kernel

theorem function_eq (category : HookCategory) :
    category.function = "Card" ++ "." ++ category.method := by
  cases category <;> rfl

theorem dotFree_method (category : HookCategory) : DotFree category.method := by
  cases category <;> decide

theorem dotFree_reference (category : HookCategory) : DotFree category.reference := by
  cases category <;> decide

end HookCategory

/-- The functions that replacements call by name begin at these variables. -/
def calledRoots : List String := ["SMODS", "next", "math"]

/-- No local variable hides what replacements call. -/
def CalleesVisible (locals : List (String × Value)) : Prop :=
  ∀ name ∈ calledRoots, locals.lookup name = none

theorem CalleesVisible.cons {locals : List (String × Value)} (h : CalleesVisible locals)
    {x : String} (hx : x ∉ calledRoots) (v : Value) : CalleesVisible ((x, v) :: locals) := by
  intro name hname
  have hne : (name == x) = false := by
    rw [beq_eq_false_iff_ne]
    rintro rfl
    exact hx hname
  rw [List.lookup_cons, hne]
  exact h name hname

/-- The replacement of a function may be loaded: the function is there, and no local variable
hides what the replacement calls. -/
structure Replaceable (category : HookCategory) (s : State W) : Prop where
  saved : s.read category.function = some (.native category.function)
  visible : CalleesVisible s.locals

/-- The function that the game has in place of that of a category, after requests were added to
the standard ledger, and the text that they were merged into was run; `none` if there is no such
text, or if something goes wrong. -/
def replacement? (host : Host W) (naming : Naming) (category : HookCategory)
    (requests : List HookRequest) (s : State W) : Option Value := do
  let ledger ← (HookLedger.standard.addAll requests).toOption
  let patches ← (ledger.patches naming).toOption
  let patch ← patches.find? (·.category = category)
  let (_, t) ← execBlock host patch.body s
  t.read (functionPath patch.target)

/-- The closure that takes the place of a function. -/
def mergedFunction (naming : Naming) (category : HookCategory) (requests : List HookRequest)
    (locals : List (String × Value)) : Value :=
  .closure (methodParams category.template.target category.template.params)
    (category.template.callThrough category.reference ++
      requests.map (HookRequest.block naming) ++ category.template.epilogue)
    ((category.reference, .native category.function) :: locals)

/-- The text of a replacement puts the closure in the place of the function. -/
theorem exec_merging (host : Host W) (naming : Naming) {s : State W}
    (hs : Replaceable category s) (requests : List HookRequest) :
    ∃ t, execBlock host (Patch.merging naming category requests).body s = some (.next, t) ∧
      t.read category.function = some (mergedFunction naming category requests s.locals) := by
  have hroot : pathRoot "Card" ≠ category.reference := by cases category <;> decide
  have hnone : category.method ∉ pathFields "Card" := by
    rw [pathFields_of_dotFree (by decide)]
    exact List.not_mem_nil
  -- The closure is made after the function was saved, and captures the variable it is saved in.
  let u := s.push category.reference (.native category.function)
  let f := mergedFunction naming category requests s.locals
  obtain ⟨a, ha⟩ := State.read_child_inv category.dotFree_method
    (category.function_eq ▸ hs.saved)
  have hcard : u.read "Card" = some (.table a) := (s.read_push _ hroot).trans ha
  have hwrite : u.write category.function f = some (u.setField a category.method f) := by
    rw [category.function_eq]
    exact State.write_child f category.dotFree_method hcard
  refine ⟨u.setField a category.method f, ?_, ?_⟩
  · simp only [Patch.merging, Patch.frame, category.functionPath_target,
      category.referenceName_target]
    rw [execBlock_cons_of_next (exec_letLocal (eval_path hs.saved)),
      execBlock_cons_of_next (exec_define (category.functionPath_target ▸ hwrite))]
    rfl
  · rw [category.function_eq, State.read_child_setField a f category.dotFree_method hcard hnone,
      if_pos ⟨rfl, rfl⟩]

/-- **The function in place.** Requests that are filed under a category put the closure in the
place of its function. -/
theorem replacement?_eq_some {s : State W} (hs : Replaceable category s)
    {requests : List HookRequest} (hfiled : ∀ r ∈ requests, r.category = category)
    (hchecked : ∀ r ∈ requests, r.check = .ok ()) {f : Value} :
    replacement? host naming category requests s = some f ↔
      requests ≠ [] ∧ f = mergedFunction naming category requests s.locals := by
  obtain ⟨ledger, hledger, hkept⟩ := HookLedger.Kept.standard.addAll hchecked
  have hrequests : ledger.requests category = requests := by
    rw [HookLedger.requests_addAll hledger]
    exact List.filter_eq_self.mpr fun r hr => decide_eq_true (hfiled r hr)
  have hpatches : (mergedPatches naming ledger.requests).find? (·.category = category) =
      Patch.merged? naming category requests := by
    rw [find?_mergedPatches, hrequests]
  obtain ⟨t, hrun, hread⟩ := exec_merging host naming hs requests
  cases requests with
  | nil =>
      simp [replacement?, hledger, hkept.patches_eq, Except.toOption, hpatches, Patch.merged?]
  | cons r requests =>
      simp only [replacement?, hledger, hkept.patches_eq, Except.toOption, hpatches, Patch.merged?,
        Option.bind_eq_bind, Option.bind_some, hrun]
      have htarget : functionPath (Patch.merging naming category (r :: requests)).target =
          category.function := category.functionPath_target
      rw [htarget, hread]
      simp [eq_comm]

/-- Without requests nothing is replaced. -/
theorem replacement?_eq_none {s : State W} (hs : Replaceable category s)
    {requests : List HookRequest} (hfiled : ∀ r ∈ requests, r.category = category)
    (hchecked : ∀ r ∈ requests, r.check = .ok ()) :
    replacement? host naming category requests s = none ↔ requests = [] := by
  rw [Option.eq_none_iff_forall_ne_some]
  simp only [ne_eq, replacement?_eq_some hs hfiled hchecked]
  constructor
  · intro h
    by_contra hne
    exact h _ ⟨hne, rfl⟩
  · rintro rfl f ⟨hne, -⟩
    exact hne rfl

/-- **The call of the saved function** passes on the arguments of the new one. -/
theorem eval_referenceCall (category : HookCategory) (params : List String)
    (hignores : host.IgnoresLocals) {args : List Value} {u s : State W} {v : Value}
    {locals : List (String × Value)}
    (hcall : host.call category.function args u = some (v, s))
    (hreference : locals.lookup category.reference = some (.native category.function))
    (hargs : List.Forall₂ (fun name v => (u.withLocals locals).read name = some v)
      ("self" :: params) args) :
    (Template.referenceCall params category.reference).eval host (u.withLocals locals) =
      some (v, s.withLocals locals) := by
  have hread : (u.withLocals locals).read category.reference =
      some (.native category.function) := by
    rw [State.read_of_dotFree _ category.dotFree_reference, State.root, State.withLocals,
      hreference, Option.getD_some]
  have happly : host.apply category.function args (u.withLocals locals) =
      host.call category.function args (u.withLocals locals) := by
    cases category <;> rfl
  have hlocal : ((u.withLocals locals).locals.lookup (pathRoot category.reference)).isSome := by
    rw [pathRoot_of_dotFree category.dotFree_reference, State.withLocals, hreference,
      Option.isSome_some]
  have hevalArgs : evalArgs host (.path "self" :: params.map .path) (u.withLocals locals) =
      some (args, u.withLocals locals) := evalArgs_paths hargs
  rw [Template.referenceCall, eval_apply_local hlocal hread hevalArgs, happly]
  exact hignores hcall locals

/-! ### Asking for owners -/

/-- The game finds the jokers that are held: the list that it makes for a key is empty exactly if
no joker of the key is held. The list may be new. -/
def Lua.Host.FindsHeld (host : Host W) (held : String → Bool) : Prop :=
  ∀ key s, ∃ a t, host.call "SMODS.find_card" [.str key] s = some (.table a, t) ∧
    ((t.tables a).items ≠ [] ↔ held key = true) ∧ s.Grows t

/-- The call that asks whether a joker is held. -/
def findCall (naming : Naming) (owner : JokerKey) : HostCall :=
  .function "SMODS.find_card" [.str (naming.jokerKey owner)]

section Asking

variable {held : String → Bool} (hheld : host.FindsHeld held)

include hheld

/-- The question whether an owner is held. -/
theorem eval_isHeld (naming : Naming) (request : HookRequest) {s : State W}
    (hvisible : CalleesVisible s.locals) :
    ∃ v t, (request.isHeld naming).eval host s = some (v, t) ∧
      v.truthy = held (naming.jokerKey request.owner) ∧ s.Grows t ∧
      ∀ record, host.Records record →
        record t.world = record s.world ++ [findCall naming request.owner] := by
  obtain ⟨a, t, hcall, hfound, hgrows⟩ := hheld (naming.jokerKey request.owner) s
  have hfind : pathRoot "SMODS.find_card" = "SMODS" := by decide
  have hlist : (Expr.apply "SMODS.find_card" [.str (naming.jokerKey request.owner)]).eval host s =
      some (.table a, t) := by
    rw [eval_apply (hfind ▸ hvisible "SMODS" (by decide))
      (evalArgs_cons (eval_str _ s) (evalArgs_nil s))]
    exact hcall
  refine ⟨if (t.tables a).items.isEmpty then .nil else .number (.finite 1), t, ?_, ?_, hgrows,
    fun record hrecord => hrecord.function hcall⟩
  · rw [HookRequest.isHeld, eval_apply_dotFree (by decide) (hvisible "next" (by decide))
      (evalArgs_cons hlist (evalArgs_nil t))]
    rfl
  · cases hitems : (t.tables a).items with
    | nil => simpa [hitems] using hfound
    | cons item items => simpa [hitems] using hfound

end Asking

/-! ### Changes of requests -/

/-- **Changes carry out steps.** What matters of a state is told by a member of the family `base`,
from which it grows. There the change of a request makes the step of the request, and calls
nothing of the game. -/
structure CarriesOut {α β : Type} (host : Host W) (request : α → HookRequest)
    (base : β → State W) (step : β → α → β) : Prop where
  visible : ∀ b, CalleesVisible (base b).locals
  /-- No step changes the number of local variables. -/
  locals : ∀ b a, (base (step b a)).locals.length = (base b).locals.length
  change : ∀ a b s, (base b).Grows s →
    ∃ t, execBlock host (request a).change.block s = some (.next, t) ∧
      (base (step b a)).Grows t ∧ t.world = s.world

namespace CarriesOut

variable {α β : Type} {request : α → HookRequest} {base : β → State W} {step : β → α → β}
  {held : String → Bool} (h : CarriesOut host request base step) (hheld : host.FindsHeld held)

include h hheld

/-- The block of a request makes its step if the owner is held. -/
theorem exec_block (naming : Naming) (a : α) {b : β} {s : State W} (hs : (base b).Grows s) :
    ∃ t, ((request a).block naming).exec host s = some (.next, t) ∧
      (base (if held (naming.jokerKey (request a).owner) then step b a else b)).Grows t ∧
      ∀ record, host.Records record →
        record t.world = record s.world ++ [findCall naming (request a).owner] := by
  obtain ⟨v, u, heval, htruthy, hgrows, hrecord⟩ := eval_isHeld hheld naming (request a)
    (hs.locals ▸ h.visible b)
  have hu := hs.trans hgrows
  have hexec := exec_ifThen (request a).change.block heval
  rw [HookRequest.block, hexec, htruthy]
  cases held (naming.jokerKey (request a).owner) with
  | false => exact ⟨u, rfl, hu, hrecord⟩
  | true =>
      obtain ⟨t, hchange, ht, hworld⟩ := h.change a b u hu
      have hlength : u.locals.length = t.locals.length := by rw [hu.locals, ht.locals, h.locals]
      refine ⟨t, ?_, ht, fun record hr => by rw [hworld, hrecord record hr]⟩
      rw [if_pos rfl, hchange, hlength]
      exact congrArg (fun t => some (Flow.next, t)) t.close_length

/-- **All blocks** make the steps of the requests whose owner is held, in their order. Each asks
once for its owner, and nothing else of the game is called. -/
theorem exec_blocks (naming : Naming) (as : List α) {b : β} {s : State W}
    (hs : (base b).Grows s) :
    ∃ t, execBlock host (as.map fun a => (request a).block naming) s = some (.next, t) ∧
      (base ((as.filter fun a => held (naming.jokerKey (request a).owner)).foldl step b)).Grows t ∧
      ∀ record, host.Records record →
        record t.world = record s.world ++ as.map fun a => findCall naming (request a).owner := by
  -- The state at each block grows from the member of the family that the steps before it led to.
  induction as generalizing b s with
  | nil => exact ⟨s, rfl, hs, fun _ _ => (List.append_nil _).symm⟩
  | cons a as ih =>
      obtain ⟨u, hblock, hu, hurecord⟩ := h.exec_block hheld naming a hs
      obtain ⟨t, hblocks, ht, htrecord⟩ := ih hu
      refine ⟨t, by rw [List.map_cons, execBlock_cons_of_next hblock, hblocks], ?_, ?_⟩
      · rw [List.filter_cons]
        cases hask : held (naming.jokerKey (request a).owner) <;> simpa [hask] using ht
      · intro record hr
        rw [htrecord record hr, hurecord record hr, List.append_assoc]
        rfl

/-- The body of a new function up to its end: what comes before the blocks, and the blocks. -/
theorem exec_changes (naming : Naming) (as : List α) {through : Block} {b : β} {u s : State W}
    (hthrough : execBlock host through u = some (.next, s)) (hs : (base b).Grows s) :
    ∃ t, execBlock host (through ++ (as.map request).map (HookRequest.block naming)) u =
        some (.next, t) ∧
      (base ((as.filter fun a => held (naming.jokerKey (request a).owner)).foldl step b)).Grows t ∧
      ∀ record, host.Records record →
        record t.world = record s.world ++ as.map fun a => findCall naming (request a).owner := by
  obtain ⟨t, hblocks, ht⟩ := h.exec_blocks hheld naming as hs
  refine ⟨t, ?_, ht⟩
  rw [execBlock_append_of_next hthrough, List.map_map]
  exact hblocks

end CarriesOut

/-! ### A game with a record -/

/-- A game in which these jokers are held. It keeps a record of the calls that it has answered,
makes every card cost ten, and answers no to every question. -/
def recordingHost (held : String → Bool) : Host (List HostCall) where
  call name args s :=
    let t := { s with world := s.world ++ [.function name args] }
    match name, args with
    | "SMODS.find_card", [.str key] =>
      some (t.alloc { items := if held key then [.str key] else [] })
    | "Card.set_cost", [.table card] => some (.nil, t.setField card "cost" (.number (.finite 10)))
    | _, _ => some (.bool false, t)
  method receiver name args s :=
    some (.nil, { s with world := s.world ++ [.method receiver name args] })

/-- A state with one card: a booster of planets whose base suit is hearts. -/
def oneBooster : State (List HostCall) where
  globals name := if name = "Card" then .table 0 else .nil
  tables a :=
    { field := fun name =>
        match a, name with
        | 0, "set_cost" => .native "Card.set_cost"
        | 0, "is_suit" => .native "Card.is_suit"
        | 1, "ability" => .table 2
        | 1, "config" => .table 3
        | 1, "base" => .table 5
        | 2, "set" => .str "Booster"
        | 3, "center" => .table 4
        | 4, "kind" => .str "Celestial"
        | 5, "suit" => .str "Hearts"
        | _, _ => .nil }
  fresh := 6
  world := []

theorem replaceable_oneBooster (category : HookCategory) : Replaceable category oneBooster where
  saved := by cases category <;> rfl
  visible _ _ := rfl

namespace recordingHost

variable (held : String → Bool)

theorem findsHeld : (recordingHost held).FindsHeld held := by
  intro key s
  refine ⟨s.fresh, _, rfl, ?_, (s.grows_withWorld _).trans (State.grows_alloc _ _)⟩
  cases held key <;> simp

theorem ignoresLocals : (recordingHost held).IgnoresLocals := by
  intro name args s v t h locals
  simp only [recordingHost] at h ⊢
  split at h <;> cases h <;> rfl

theorem records : (recordingHost held).Records id := by
  constructor
  case function =>
    intro name args s v t h
    simp only [recordingHost] at h
    split at h <;> cases h <;> rfl
  case method =>
    intro receiver name args s v t h
    cases h
    rfl

end recordingHost

end JokerScript
