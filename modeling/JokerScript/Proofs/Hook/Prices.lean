import JokerScript.Proofs.Hook.Discounts
import JokerScript.Proofs.Hook.Replaced
import JokerScript.Proofs.Resolve.Worth

/-!
# The Replaced Prices

The function that sets the prices of a card is replaced, once some joker asks for a discount. The
new function calls the saved one first and once, and then gives the card the prices that the
discounts of held owners leave. It changes nothing but these prices, and calls nothing of the
game but to ask for the owners.

## Main definitions

* `PricedCard.ShownAt`, `PricedCard.InBody` — where the code finds what prices depend on.
* `Repriced` — a card with its new prices.

## Main results

* `carriesOut_discounts` — the change of a discount makes the step of the discount.
* `replacement_setCost` — the prices after a run of the new function.
-/

namespace JokerScript

open Lua

variable {W : Type} {host : Host W}

namespace PricedCard

variable {card : PricedCard} {c : ℕ} {cost : ExactNumber} {s t : State W}

/-! ### Cards of a state -/

/-- The card at an address has what its prices depend on. -/
structure ShownAt (card : PricedCard) (c : ℕ) (s : State W) : Prop where
  here : c < s.fresh
  ability : ∃ a < s.fresh, (s.tables c).field "ability" = .table a ∧
    (s.tables a).field "set" = card.set ∧
    (s.tables a).field "extra_value" = card.extra.elim .nil .number
  /-- Only boosters need to have a kind. -/
  kind : card.set = .str "Booster" → ∃ a < s.fresh, ∃ b < s.fresh,
    (s.tables c).field "config" = .table a ∧ (s.tables a).field "center" = .table b ∧
    (s.tables b).field "kind" = card.kind

/-- The fields that the new function writes. -/
def priceFields : List String := ["cost", "sell_cost", "sell_cost_label"]

namespace ShownAt

theorem grows (h : card.ShownAt c s) (hgrows : s.Grows t) : card.ShownAt c t := by
  have hhere := h.here.trans_le hgrows.fresh
  obtain ⟨a, ha, hability, hfields⟩ := h.ability
  rw [← hgrows.tables c h.here] at hability
  rw [← hgrows.tables a ha] at hfields
  refine ⟨hhere, ⟨a, ha.trans_le hgrows.fresh, hability, hfields⟩, fun hbooster => ?_⟩
  obtain ⟨a, ha, b, hb, hconfig, hcenter, hkind⟩ := h.kind hbooster
  rw [← hgrows.tables c h.here] at hconfig
  rw [← hgrows.tables a ha] at hcenter
  rw [← hgrows.tables b hb] at hkind
  exact ⟨a, ha.trans_le hgrows.fresh, b, hb.trans_le hgrows.fresh, hconfig, hcenter, hkind⟩

/-- New prices do not matter for what prices depend on. -/
theorem setField (h : card.ShownAt c s) (a : ℕ) {name : String} (hname : name ∈ priceFields)
    (v : Value) : card.ShownAt c (s.setField a name v) := by
  have hfield : ∀ b, ∀ x ∉ priceFields,
      ((s.setField a name v).tables b).field x = (s.tables b).field x := by
    intro b x hx
    rw [State.field_setField, if_neg]
    rintro ⟨-, rfl⟩
    exact hx hname
  constructor
  case here => exact h.here
  case ability =>
    obtain ⟨a, ha, hability⟩ := h.ability
    refine ⟨a, ha, ?_⟩
    rwa [hfield c _ (by decide), hfield a _ (by decide), hfield a _ (by decide)]
  case kind =>
    intro hbooster
    obtain ⟨a, ha, b, hb, hkind⟩ := h.kind hbooster
    refine ⟨a, ha, b, hb, ?_⟩
    rwa [hfield c _ (by decide), hfield a _ (by decide), hfield b _ (by decide)]

end ShownAt

/-- Where a body of the new function runs: the card is the object of the call, it has a cost, and
the library is there. -/
structure InBody (card : PricedCard) (c : ℕ) (cost : ExactNumber) (s : State W) : Prop where
  shown : card.ShownAt c s
  self : s.root "self" = .table c
  cost : (s.tables c).field "cost" = .number cost
  visible : s.locals.lookup "math" = none

namespace InBody

theorem grows (h : card.InBody c cost s) (hgrows : s.Grows t) : card.InBody c cost t where
  shown := h.shown.grows hgrows
  self := (hgrows.root _).trans h.self
  cost := by rw [hgrows.tables c h.shown.here, h.cost]
  visible := by rw [hgrows.locals, h.visible]

/-- The card with another cost. -/
theorem setCost (h : card.InBody c cost s) (k : ExactNumber) :
    card.InBody c k (s.setField c "cost" (.number k)) where
  shown := h.shown.setField c (by decide) _
  self := h.self
  cost := by rw [State.field_setField, if_pos ⟨rfl, rfl⟩]
  visible := h.visible

theorem read_self (h : card.InBody c cost s) : s.read "self" = some (.table c) := by
  rw [State.read_of_dotFree s (by decide), h.self]

/-- A field of the card. -/
theorem read_field (h : card.InBody c cost s) (name : String) (hname : DotFree name) :
    s.read ("self" ++ "." ++ name) = some ((s.tables c).field name) :=
  State.read_child hname h.read_self

/-! ### Discounts -/

/-- The question whether the card is of a set. -/
theorem decides_isSet (h : card.InBody c cost s) (name : String) :
    Decides host s (SetCost.isSet name) (card.set.same (.str name) = true) := by
  obtain ⟨a, -, hability, hset, -⟩ := h.shown.ability
  have htable : s.read "self.ability" = some (.table a) :=
    (h.read_field "ability" (by decide)).trans (congrArg some hability)
  have hread : s.read "self.ability.set" = some card.set :=
    (State.read_child (by decide : DotFree "set") htable).trans (congrArg some hset)
  exact ⟨_, eval_binary (by simp) (eval_path hread) (eval_str name s) rfl,
    by rw [Value.truthy_bool]⟩

/-- The question whether the card is a booster of a kind. -/
theorem decides_isBoosterOf (h : card.InBody c cost s) (kind : String) :
    Decides host s (SetCost.isBoosterOf kind)
      (card.set.same (.str "Booster") = true ∧ card.kind.same (.str kind) = true) := by
  refine (h.decides_isSet "Booster").andThen fun hbooster => ?_
  obtain ⟨a, -, b, -, hconfig, hcenter, hkind⟩ := h.shown.kind (Value.same_str.mp hbooster)
  have hconfigTable : s.read "self.config" = some (.table a) :=
    (h.read_field "config" (by decide)).trans (congrArg some hconfig)
  have hcenterTable : s.read "self.config.center" = some (.table b) :=
    (State.read_child (by decide : DotFree "center") hconfigTable).trans (congrArg some hcenter)
  have hread : s.read "self.config.center.kind" = some card.kind :=
    (State.read_child (by decide : DotFree "kind") hcenterTable).trans (congrArg some hkind)
  exact ⟨_, eval_binary (by simp) (eval_path hread) (eval_str kind s) rfl,
    by rw [Value.truthy_bool]⟩

theorem decides_isOneOf (h : card.InBody c cost s) (names : List String) :
    Decides host s (SetCost.isOneOf names)
      (∃ name ∈ names, card.set.same (.str name) = true) := by
  refine Decides.anyOf (f := fun name => card.set.same (.str name) = true) ?_
  rw [List.forall₂_map_right_iff, List.forall₂_same]
  exact fun name _ => h.decides_isSet name

/-- **The question whether a target covers the card.** -/
theorem decides_covers (h : card.InBody c cost s) (host : Host W) (target : DiscountTarget) :
    Decides host s (SetCost.covers target) (card.isCoveredBy target = true) := by
  cases target with
  | planet | tarot | spectral | standard =>
      exact ((h.decides_isSet _).or (h.decides_isBoosterOf _)).congr
        (by simp [isCoveredBy, DiscountTarget.sets, DiscountTarget.boosterKind?])
  | jokers | vouchers =>
      exact (h.decides_isSet _).congr
        (by simp [isCoveredBy, DiscountTarget.sets, DiscountTarget.boosterKind?])
  | allConsumables | allCards | allShopItems =>
      exact (h.decides_isOneOf _).congr
        (by simp [isCoveredBy, DiscountTarget.sets, DiscountTarget.boosterKind?])

theorem eval_cost (h : card.InBody c cost s) :
    SetCost.cost.eval host s = some (.number cost, s) :=
  eval_path ((h.read_field "cost" (by decide)).trans (congrArg some h.cost))

/-- The greater of zero and a number. -/
theorem eval_atLeastZero (h : card.InBody c cost s) {e : Expr} {a : ExactNumber}
    (he : e.eval host s = some (.number a, s)) :
    (SetCost.atLeastZero e).eval host s = some (.number ((ExactNumber.finite 0).max a), s) :=
  eval_max h.visible (eval_zero s) he

/-- **The cost after a discount** is what the code computes. -/
theorem eval_discountedCost (h : card.InBody c cost s) (discount : Discount) :
    (SetCost.discountedCost discount.method discount.amount).eval host s =
      some (.number (discount.apply cost), s) := by
  rw [Discount.apply]
  cases discount.method with
  | makeFree => exact eval_zero s
  | flatReduction =>
      exact h.eval_atLeastZero
        (eval_binary (by simp) h.eval_cost (eval_number discount.amount s) rfl)
  | percentageReduction =>
      have hhundred : (Expr.number Number.hundred).eval host s =
          some (.number (.finite 100), s) := by
        rw [eval_number, Number.literalValue_hundred]
      have hpart : ((Expr.number discount.amount).dividedBy (.number Number.hundred)).eval host s =
          some (.number (discount.amount.literalValue.div (.finite 100)), s) :=
        eval_binary (by simp) (eval_number discount.amount s) hhundred rfl
      have hfactor : (Expr.one.minus
          ((Expr.number discount.amount).dividedBy (.number Number.hundred))).eval host s =
          some (.number ((ExactNumber.finite 1).sub
            (discount.amount.literalValue.div (.finite 100))), s) :=
        eval_binary (by simp) (eval_one s) hpart rfl
      exact h.eval_atLeastZero
        (eval_floor h.visible (eval_binary (by simp) h.eval_cost hfactor rfl))

/-- An assignment to a field of the card. -/
theorem write_field (h : card.InBody c cost s) (name : String) (hname : DotFree name)
    (v : Value) : s.write ("self" ++ "." ++ name) v = some (s.setField c name v) :=
  State.write_child v hname h.read_self

theorem exec_discount (h : card.InBody c cost s) (discount : Discount) :
    execBlock host (SetCost.discount discount) s = some (.next,
      s.setField c "cost"
        (.number (if card.isCoveredBy discount.target then discount.apply cost else cost))) := by
  obtain ⟨v, hv, htruthy⟩ := h.decides_covers host discount.target
  have hset : (Stmt.set "self.cost"
      (SetCost.discountedCost discount.method discount.amount)).exec host s =
      some (.next, s.setField c "cost" (.number (discount.apply cost))) :=
    exec_set (h.eval_discountedCost discount) (h.write_field "cost" (by decide) _)
  have hstmt := exec_ifThen
    [.set "self.cost" (SetCost.discountedCost discount.method discount.amount)] hv
  rw [SetCost.discount, execBlock_cons_of_next]
  · rfl
  · rw [hstmt, Bool.eq_iff_iff.mpr htruthy]
    cases card.isCoveredBy discount.target with
    | true =>
        rw [if_pos rfl, if_pos rfl, execBlock_cons_of_next hset]
        exact congrArg (fun t => some (Flow.next, t)) (State.close_length _)
    | false =>
        have hsame : s.setField c "cost" (.number cost) = s := by rw [← h.cost, State.setField_self]
        rw [if_neg Bool.false_ne_true, if_neg Bool.false_ne_true, hsame]

/-! ### The value of a card -/

/-- What is added to the sell value. -/
theorem eval_extra (h : card.InBody c cost s) :
    ((Expr.path "self.ability.extra_value").or .zero).eval host s =
      some (.number (card.extra.getD (.finite 0)), s) := by
  obtain ⟨a, -, hability, -, hextra⟩ := h.shown.ability
  have htable : s.read "self.ability" = some (.table a) :=
    (h.read_field "ability" (by decide)).trans (congrArg some hability)
  have hread : s.read "self.ability.extra_value" = some (card.extra.elim .nil .number) :=
    (State.read_child (by decide : DotFree "extra_value") htable).trans (congrArg some hextra)
  have hpath : (Expr.path "self.ability.extra_value").eval host s =
      some (card.extra.elim .nil .number, s) := eval_path hread
  rw [eval_or hpath]
  cases card.extra with
  | none => exact (if_neg Bool.false_ne_true).trans (eval_zero s)
  | some n => rfl

/-- The label is the sell value, or hidden while the card lies on its face. -/
theorem exists_eval_label (h : card.InBody c cost s) (host : Host W) :
    ∃ v, ((((Expr.path "self.facing").equals (.str "back")).and (.str "?")).or
      (.path "self.sell_cost")).eval host s = some (v, s) := by
  have hfacing : s.read "self.facing" = some ((s.tables c).field "facing") :=
    h.read_field "facing" (by decide)
  have hsell : s.read "self.sell_cost" = some ((s.tables c).field "sell_cost") :=
    h.read_field "sell_cost" (by decide)
  have hback : ((Expr.path "self.facing").equals (.str "back")).eval host s =
      some (.bool (((s.tables c).field "facing").same (.str "back")), s) :=
    eval_binary (by simp) (eval_path hfacing) (eval_str "back" s) rfl
  have hhidden := eval_and (r := .str "?") hback
  cases hsame : ((s.tables c).field "facing").same (.str "back") with
  | true =>
      rw [hsame, Value.truthy_bool, if_pos rfl] at hhidden
      exact ⟨.str "?", eval_or hhidden⟩
  | false =>
      rw [hsame, Value.truthy_bool, if_neg Bool.false_ne_true] at hhidden
      have hshown := eval_or (r := .path "self.sell_cost") hhidden
      exact ⟨_, hshown.trans ((if_neg Bool.false_ne_true).trans (eval_path hsell))⟩

/-- **The end of the new function** gives the card its sell value. -/
theorem exec_epilogue (h : card.InBody c cost s) (host : Host W) :
    ∃ label, execBlock host SetCost.epilogue s = some (.next,
      (s.setField c "sell_cost" (.number (card.sellValue cost))).setField c "sell_cost_label"
        label) := by
  have htwo : (Expr.number Number.two).eval host s = some (.number (.finite 2), s) := by
    rw [eval_number, Number.literalValue_two]
  have hhalf : (Expr.apply "math.floor" [SetCost.cost.dividedBy (.number Number.two)]).eval host s =
      some (.number (cost.div (.finite 2)).floor, s) :=
    eval_floor h.visible (eval_binary (by simp) h.eval_cost htwo rfl)
  have hvalue : ((Expr.apply "math.max"
        [.one, .apply "math.floor" [SetCost.cost.dividedBy (.number Number.two)]]).plus
      ((Expr.path "self.ability.extra_value").or .zero)).eval host s =
      some (.number (card.sellValue cost), s) :=
    eval_binary (by simp) (eval_max h.visible (eval_one s) hhalf) h.eval_extra rfl
  let u := s.setField c "sell_cost" (.number (card.sellValue cost))
  have hwrite : s.write "self.sell_cost" (.number (card.sellValue cost)) = some u :=
    h.write_field "sell_cost" (by decide) _
  have hu : card.InBody c cost u :=
    { shown := h.shown.setField c (by decide) _
      self := h.self
      cost := by rw [State.field_setField, if_neg (by simp), h.cost]
      visible := h.visible }
  obtain ⟨label, hlabel⟩ := hu.exists_eval_label host
  have hlabelWrite : u.write "self.sell_cost_label" label =
      some (u.setField c "sell_cost_label" label) :=
    hu.write_field "sell_cost_label" (by decide) label
  refine ⟨label, ?_⟩
  rw [SetCost.epilogue, execBlock_cons_of_next (exec_set hvalue hwrite),
    execBlock_cons_of_next (exec_set hlabel hlabelWrite)]
  rfl

end InBody

/-! ### The new function -/

/-- The request for a discount. -/
def discountRequest (p : JokerKey × Discount) : HookRequest := .ofChange p.1 (.discount p.2)

/-- **The change of a discount makes the step of the discount**, in the states that grow from one
with the card at its cost. -/
theorem carriesOut_discounts (h : card.InBody c cost s)
    (hvisible : CalleesVisible s.locals) :
    CarriesOut host discountRequest (fun k => s.setField c "cost" (.number k))
      fun k p => if card.isCoveredBy p.2.target then p.2.apply k else k where
  visible _ := hvisible
  locals _ _ := rfl
  change := by
    intro p k t ht
    refine ⟨_, ((h.setCost k).grows ht).exec_discount p.2, ?_, rfl⟩
    have hset := ht.setField c "cost"
      (.number (if card.isCoveredBy p.2.target then p.2.apply k else k))
    rwa [State.setField_setField] at hset

end PricedCard

/-- The card at an address has **new prices** in the second state, and no other field of a table
that was there has changed. -/
structure Repriced (c : ℕ) (cost sell : ExactNumber) (s t : State W) : Prop where
  cost : (t.tables c).field "cost" = .number cost
  sell : (t.tables c).field "sell_cost" = .number sell
  others : ∀ a < s.fresh, ∀ name, (a = c → name ∉ PricedCard.priceFields) →
    (t.tables a).field name = (s.tables a).field name

/-- The prices that are written last are those that the card has. -/
theorem repriced_of_grows {c : ℕ} {cost : ExactNumber} {s t : State W} (hc : c < s.fresh)
    (hgrows : (s.setField c "cost" (.number cost)).Grows t) (sell : ExactNumber)
    (label : Value) :
    Repriced c cost sell s
      ((t.setField c "sell_cost" (.number sell)).setField c "sell_cost_label" label) where
  cost := by
    rw [State.field_setField, if_neg (by simp), State.field_setField, if_neg (by simp),
      hgrows.tables c hc, State.field_setField, if_pos ⟨rfl, rfl⟩]
  sell := by
    rw [State.field_setField, if_neg (by simp), State.field_setField, if_pos ⟨rfl, rfl⟩]
  others := by
    intro a ha name hname
    have hother : ∀ x ∈ PricedCard.priceFields, ¬(a = c ∧ name = x) := by
      rintro x hx ⟨rfl, rfl⟩
      exact hname rfl hx
    rw [State.field_setField, if_neg (hother _ (by decide)), State.field_setField,
      if_neg (hother _ (by decide)), hgrows.tables a ha, State.field_setField,
      if_neg (hother _ (by decide))]

section Run

variable {naming : Naming} {held : String → Bool} {discounts : List (JokerKey × Discount)}
  {locals : List (String × Value)} {card : PricedCard} {c : ℕ} {cost : ExactNumber}
  {u s : State W} {v : Value}

/-- **A run of the new function.** -/
theorem run_mergedFunction_discounts (hignores : host.IgnoresLocals) (hheld : host.FindsHeld held)
    (hvisible : CalleesVisible locals)
    (hcall : host.call "Card.set_cost" [.table c] u = some (v, s)) (hshown : card.ShownAt c s)
    (hcost : (s.tables c).field "cost" = .number cost) :
    ∃ t, (mergedFunction naming .discountItems
        (discounts.map PricedCard.discountRequest) locals).run host [.table c] u =
        some (.nil, t) ∧
      Repriced c (card.costAfter naming held discounts cost)
        (card.sellValue (card.costAfter naming held discounts cost)) s t ∧
      ∀ record, host.Records record → record t.world = record u.world ++
        .function "Card.set_cost" [.table c] :: discounts.map fun p => findCall naming p.1 := by
  let inner := ("self", Value.table c) :: ("card_set_cost_ref", .native "Card.set_cost") :: locals
  have hinner : CalleesVisible inner := (hvisible.cons (by decide) _).cons (by decide) _
  have hthrough : execBlock host (SetCost.template.callThrough "card_set_cost_ref")
      (u.withLocals inner) = some (.next, s.withLocals inner) :=
    execBlock_cons_of_next (exec_run (eval_referenceCall .discountItems [] hignores hcall rfl
      (.cons rfl .nil)))
  have hbody : card.InBody c cost (s.withLocals inner) :=
    { shown := ⟨hshown.here, hshown.ability, hshown.kind⟩
      self := rfl
      cost := hcost
      visible := hinner "math" (by decide) }
  -- The first member of the family is the state itself: its cost is written once more.
  have hstart : ((s.withLocals inner).setField c "cost" (.number cost)).Grows
      (s.withLocals inner) := by
    rw [← hbody.cost, State.setField_self]
    exact .refl _
  obtain ⟨w, hchanges, hgrows, hrecord⟩ :=
    (PricedCard.carriesOut_discounts hbody hinner).exec_changes hheld naming discounts hthrough
      hstart
  generalize hfinal : card.costAfter naming held discounts cost = final
  have hw : ((s.withLocals inner).setField c "cost" (.number final)).Grows w := by
    rw [← hfinal, PricedCard.costAfter_eq_foldl]
    exact hgrows
  obtain ⟨label, hepilogue⟩ := ((hbody.setCost final).grows hw).exec_epilogue host
  have hprices := repriced_of_grows (s := s.withLocals inner) hshown.here hw
    (card.sellValue final) label
  have hrun := (execBlock_append_of_next hchanges).trans hepilogue
  refine ⟨_, run_closure_of_next hrun, ⟨hprices.cost, hprices.sell, hprices.others⟩, ?_⟩
  intro record hr
  have hcalls : record w.world = record s.world ++ discounts.map fun p => findCall naming p.1 :=
    hrecord record hr
  exact hcalls.trans (by rw [hr.function hcall, List.append_assoc, List.singleton_append])

/-- **The new function sets the prices that the discounts leave.** It is there exactly if a
discount was asked for. Whatever the saved function does to the card, the new one calls it once
and first; then the discounts apply that cover the card and whose owner is held, in the order of
the requests, and the sell value follows the cost. -/
theorem replacement_setCost (hignores : host.IgnoresLocals) (hheld : host.FindsHeld held)
    (naming : Naming) (discounts : List (JokerKey × Discount)) {loaded : State W}
    (hloaded : Replaceable .discountItems loaded) :
    (replacement? host naming .discountItems (discounts.map PricedCard.discountRequest) loaded =
      none ↔ discounts = []) ∧
    ∀ f, replacement? host naming .discountItems (discounts.map PricedCard.discountRequest)
        loaded = some f →
      ∀ (card : PricedCard) (c : ℕ) (cost : ExactNumber) (v : Value) (u s : State W),
      host.call "Card.set_cost" [.table c] u = some (v, s) → card.ShownAt c s →
      (s.tables c).field "cost" = .number cost →
      ∃ t, f.run host [.table c] u = some (.nil, t) ∧
        Repriced c (card.costAfter naming held discounts cost)
          (card.sellValue (card.costAfter naming held discounts cost)) s t ∧
        (∀ record, host.Records record → record t.world = record u.world ++
          .function "Card.set_cost" [.table c] :: discounts.map fun p => findCall naming p.1) ∧
        ((∀ p ∈ discounts, (ExactNumber.finite 0).le p.2.amount.literalValue = true) →
          (ExactNumber.finite 0).le cost = true →
          (ExactNumber.finite 0).le (card.costAfter naming held discounts cost) = true ∧
            (card.costAfter naming held discounts cost).le cost = true) := by
  have hfiled : ∀ r ∈ discounts.map PricedCard.discountRequest, r.category = .discountItems :=
    List.forall_mem_map.mpr fun _ _ => rfl
  have hchecked : ∀ r ∈ discounts.map PricedCard.discountRequest, r.check = .ok () :=
    List.forall_mem_map.mpr fun _ _ => HookRequest.check_ofChange _ _
  constructor
  · rw [replacement?_eq_none hloaded hfiled hchecked, List.map_eq_nil_iff]
  · intro f hf card c cost v u s hcall hshown hcost
    obtain ⟨-, rfl⟩ := (replacement?_eq_some hloaded hfiled hchecked).mp hf
    obtain ⟨t, hrun, hprices, hrecord⟩ :=
      run_mergedFunction_discounts hignores hheld hloaded.visible hcall hshown hcost
    exact ⟨t, hrun, hprices, hrecord, card.costAfter_between naming held⟩

end Run

/-- Two off, all off for an owner that is not held, five percent off, and all off for vouchers. -/
def boosterDiscounts : List (JokerKey × Discount) :=
  [(⟨"a"⟩, ⟨.planet, .flatReduction, Number.two⟩),
    (⟨"b"⟩, ⟨.planet, .makeFree, Number.one⟩),
    (⟨"a"⟩, ⟨.allCards, .percentageReduction, Number.five⟩),
    (⟨"a"⟩, ⟨.vouchers, .makeFree, Number.one⟩)]

/-- While only `a` is held, a booster of planets costs seven instead of ten. -/
theorem replacement_setCost_booster : ∃ f t,
    replacement? (recordingHost (· == "j_mod_a")) {} .discountItems
      (boosterDiscounts.map PricedCard.discountRequest) oneBooster = some f ∧
    f.run (recordingHost (· == "j_mod_a")) [.table 1] oneBooster = some (.nil, t) ∧
    (t.tables 1).field "cost" = .number (.finite 7) ∧
    (t.tables 1).field "sell_cost" = .number (.finite 3) ∧
    t.world = .function "Card.set_cost" [.table 1] ::
      ["j_mod_a", "j_mod_b", "j_mod_a", "j_mod_a"].map
        (fun key => .function "SMODS.find_card" [.str key]) ∧
    (ExactNumber.finite 0).le (.finite 7) = true ∧
    (ExactNumber.finite 7).le (.finite 10) = true := by
  let held : String → Bool := (· == "j_mod_a")
  let card : PricedCard := { set := .str "Booster", kind := .str "Celestial" }
  obtain ⟨hthere, hruns⟩ := replacement_setCost (recordingHost.ignoresLocals held)
    (recordingHost.findsHeld held) {} boosterDiscounts (replaceable_oneBooster _)
  obtain ⟨f, hf⟩ := Option.ne_none_iff_exists'.mp (hthere.not.mpr (by decide))
  let s : State (List HostCall) := { oneBooster.setField 1 "cost" (.number (.finite 10)) with
    world := [.function "Card.set_cost" [.table 1]] }
  have hshown : card.ShownAt 1 s := by
    refine ⟨by decide, ⟨2, by decide, rfl, rfl, rfl⟩, fun _ => ?_⟩
    exact ⟨3, by decide, 4, by decide, rfl, rfl, rfl⟩
  obtain ⟨t, hrun, hprices, hrecord, hbetween⟩ :=
    hruns f hf card 1 (.finite 10) .nil oneBooster s rfl hshown rfl
  have hcost : card.costAfter {} held boosterDiscounts (.finite 10) = .finite 7 := by
    decide +kernel
  have hsell : card.sellValue (.finite 7) = .finite 3 := by decide +kernel
  rw [hcost, hsell] at hprices
  rw [hcost] at hbetween
  exact ⟨f, t, hf, hrun, hprices.cost, hprices.sell, hrecord id (recordingHost.records held),
    hbetween (by decide +kernel) (by decide +kernel)⟩

end JokerScript
