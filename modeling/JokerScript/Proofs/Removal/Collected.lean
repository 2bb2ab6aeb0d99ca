import JokerScript.Code.Effect.ConsumableRemoval
import JokerScript.Proofs.Condition.Loops
import JokerScript.Proofs.Lua.Calls

/-!
# Collecting Consumables

Before a consumable is destroyed, the ones that are asked for are collected in a new table. A loop
goes through the consumables that are held and inserts those that pass a test. The law of the loop
is proved by induction on the consumables: whatever the table holds already, a turn adds the
consumable of the turn if it is asked for, and leaves everything else alone.

## Main definitions

* `HeldConsumable`, `HeldConsumable.ShownBy` — held consumables, and what a state shows of them.
* `ConsumableChoice.picks` — is the consumable asked for?
* `ConsumableRemoval.collected` — a state with a table of collected consumables.

## Main results

* `ConsumableRemoval.exec_collecting` — the loop collects just those that are asked for, in order.
-/

namespace JokerScript

open Lua

variable {W : Type} {host : Host W} {s t : State W}

/-! ### Held consumables -/

/-- A **consumable that is held**: the tables that generated code goes through to see its set and
the key of its center. -/
structure HeldConsumable where
  card : ℕ
  ability : ℕ
  config : ℕ
  center : ℕ
  set : Value
  key : Value

namespace HeldConsumable

variable {c : HeldConsumable}

/-- The consumable as a value. -/
def value (c : HeldConsumable) : Value := .table c.card

/-- The state **shows** the set and the key of the consumable. -/
structure ShownBy (c : HeldConsumable) (s : State W) : Prop where
  ability : (s.tables c.card).field "ability" = .table c.ability
  set : (s.tables c.ability).field "set" = c.set
  config : (s.tables c.card).field "config" = .table c.config
  center : (s.tables c.config).field "center" = .table c.center
  key : (s.tables c.center).field "key" = c.key
  old : ∀ a ∈ [c.card, c.ability, c.config, c.center], a < s.fresh

/-- Growth leaves consumables alone. -/
theorem ShownBy.grows (h : c.ShownBy s) (hst : s.Grows t) : c.ShownBy t := by
  have htables : ∀ a ∈ [c.card, c.ability, c.config, c.center], t.tables a = s.tables a :=
    fun a ha => hst.tables a (h.old a ha)
  simp only [List.forall_mem_cons] at htables
  obtain ⟨hcard, hability, hconfig, hcenter, -⟩ := htables
  exact
    { ability := hcard ▸ h.ability
      set := hability ▸ h.set
      config := hcard ▸ h.config
      center := hconfig ▸ h.center
      key := hcenter ▸ h.key
      old := fun a ha => (h.old a ha).trans_le hst.fresh }

section Turn

variable (h : c.ShownBy t) (k : Value)

include h

theorem ShownBy.read_set :
    ((t.push "_" k).push "consumable" c.value).read "consumable.ability.set" = some c.set := by
  have hroot : pathRoot "consumable.ability.set" = "consumable" := by decide
  have hfields : pathFields "consumable.ability.set" = ["ability", "set"] := by decide
  simp [State.read, hroot, hfields, State.root, State.push, value, State.fieldOf, h.ability, h.set]

theorem ShownBy.read_key :
    ((t.push "_" k).push "consumable" c.value).read "consumable.config.center.key" =
      some c.key := by
  have hroot : pathRoot "consumable.config.center.key" = "consumable" := by decide
  have hfields : pathFields "consumable.config.center.key" = ["config", "center", "key"] := by
    decide
  simp [State.read, hroot, hfields, State.root, State.push, value, State.fieldOf, h.config,
    h.center, h.key]

end Turn

end HeldConsumable

/-! ### The test -/

/-- **Is the consumable asked for?** -/
def ConsumableChoice.picks : ConsumableChoice → HeldConsumable → Bool
  | .any, _ => true
  | .ofSet set none, c => c.set.same (.str set.name)
  | .ofSet set (some name), c => c.set.same (.str set.name) && c.key.same (.str (set.key name))

theorem ConsumableChoice.picks_ofSet {set : ConsumableSet} {card : Option String}
    {c : HeldConsumable} :
    (ConsumableChoice.ofSet set card).picks c = true ↔
      c.set = .str set.name ∧ ∀ name ∈ card, c.key = .str (set.key name) := by
  cases card with
  | none => simp [picks, Value.same_str]
  | some name => simp [picks, Value.same_str]

namespace ConsumableRemoval

/-- The test decides whether the consumable of a turn is asked for. -/
theorem decides_filter {target : ConsumableChoice} {condition : Expr} {c : HeldConsumable}
    (hfilter : filter? target = some condition) (h : c.ShownBy t) (k : Value) :
    Decides host ((t.push "_" k).push "consumable" c.value) condition
      (target.picks c = true) := by
  have hset (set : ConsumableSet) : Decides host ((t.push "_" k).push "consumable" c.value)
      ((Expr.path "consumable.ability.set").equals (.str set.name))
      (c.set.same (.str set.name) = true) :=
    ⟨_, eval_binary (by decide) (eval_path (h.read_set k)) (eval_str ..) rfl,
      by rw [Value.truthy_bool]⟩
  have hkey (key : String) : Decides host ((t.push "_" k).push "consumable" c.value)
      ((Expr.path "consumable.config.center.key").equals (.str key))
      (c.key.same (.str key) = true) :=
    ⟨_, eval_binary (by decide) (eval_path (h.read_key k)) (eval_str ..) rfl,
      by rw [Value.truthy_bool]⟩
  cases target with
  | any => cases hfilter
  | ofSet set card =>
      cases card with
      | none =>
          obtain rfl := Option.some.inj hfilter
          exact hset set
      | some name =>
          obtain rfl := Option.some.inj hfilter
          exact ((hset set).and (hkey (set.key name))).congr (by
            rw [ConsumableChoice.picks, Bool.and_eq_true])

/-! ### The loop -/

/-- The state after some values were **collected** in a new table. -/
def collected (s : State W) (items : List Value) : State W :=
  (s.alloc { items }).2.push targets (.table s.fresh)

/-- One more item. -/
theorem setItems_collected (s : State W) (items items' : List Value) :
    (collected s items).setItems s.fresh items' = collected s items' := by
  simp [collected, State.setItems, State.push, State.alloc]

/-- The state in a turn of the loop over the value `v`, when some values are collected. -/
def turn (s : State W) (items : List Value) (k v : Value) : State W :=
  ((collected s items).push "_" k).push "consumable" v

theorem close_turn (s : State W) (items items' : List Value) (k v : Value) :
    (turn s items' k v).close (collected s items).locals.length = collected s items' :=
  State.close_turn "_" "consumable" k v rfl

/-- An insertion in a turn. -/
theorem exec_insert (hvisible : s.locals.lookup "table" = none) (items : List Value)
    (k v : Value) :
    (Stmt.call "table.insert" [.path targets, .path "consumable"]).exec host
      (turn s items k v) = some (.next, turn s (items ++ [v]) k v) := by
  have hroot : pathRoot "table.insert" = "table" := by decide
  have hname : (turn s items k v).locals.lookup (pathRoot "table.insert") = none := by
    rw [hroot]
    simpa [turn, collected, targets, State.alloc, List.lookup_cons] using hvisible
  have htargets : pathRoot targets ≠ "_" ∧ pathRoot targets ≠ "consumable" := by decide
  have hread : (turn s items k v).read targets = some (.table s.fresh) := by
    rw [turn, State.read_push _ _ htargets.2, State.read_push _ _ htargets.1, collected,
      State.read_push_self _ _ (by decide)]
  have hconsumable : (turn s items k v).read "consumable" = some v :=
    State.read_push_self _ _ (by decide)
  have hargs : evalArgs host [.path targets, .path "consumable"] (turn s items k v) =
      some ([.table s.fresh, v], turn s items k v) :=
    evalArgs_cons (eval_path hread) (evalArgs_cons (eval_path hconsumable) (evalArgs_nil _))
  have hitems : ((turn s items k v).tables s.fresh).items = items := by
    simp [turn, collected, State.push, State.alloc]
  have hinsert : host.apply "table.insert" [.table s.fresh, v] (turn s items k v) =
      some (.nil, (turn s items k v).setItems s.fresh
        (((turn s items k v).tables s.fresh).items ++ [v])) := rfl
  have hstate : (turn s items k v).setItems s.fresh (items ++ [v]) =
      turn s (items ++ [v]) k v :=
    congrArg (fun t => (t.push "_" k).push "consumable" v)
      (setItems_collected s items (items ++ [v]))
  rw [hitems, hstate] at hinsert
  exact exec_run ((eval_apply hname hargs).trans hinsert)

/-- **A turn** adds its consumable if it is asked for. -/
theorem execBlock_collect (target : ConsumableChoice) {c : HeldConsumable}
    (hvisible : s.locals.lookup "table" = none) (hshown : c.ShownBy s) (items : List Value)
    (k : Value) :
    execBlock host (collect target) (turn s items k c.value) =
      some (.next, turn s (items ++ if target.picks c then [c.value] else []) k c.value) := by
  have hinsert : (Stmt.call _ _).exec host (turn s items k c.value) = _ :=
    exec_insert hvisible items k c.value
  have hturn : c.ShownBy (collected s items) :=
    { hshown.grows (s.grows_alloc { items }) with }
  cases hfilter : filter? target with
  | none =>
      have hpicks : target.picks c = true := by
        cases target with
        | any => rfl
        | ofSet set card => cases card <;> cases hfilter
      rw [collect, hfilter, hpicks, if_pos rfl]
      exact execBlock_cons_of_next hinsert
  | some condition =>
      have hdecides : Decides host (turn s items k c.value) condition (target.picks c = true) :=
        decides_filter hfilter hturn k
      rw [collect, hfilter]
      cases hpicks : target.picks c with
      | true =>
          rw [if_pos rfl]
          exact execBlock_cons_of_next (exec_ifThen_of hdecides hpicks
            (execBlock_cons_of_next hinsert) rfl)
      | false =>
          rw [if_neg (by simp), List.append_nil]
          exact execBlock_ifThen_of_not _ hdecides (by simp [hpicks])

/-- **The loop adds the consumables that are asked for**, in their order. -/
theorem runLoop_collect (target : ConsumableChoice) {cards : List HeldConsumable}
    {entries : List (Value × Value)}
    (hentries : entries.map Prod.snd = cards.map HeldConsumable.value)
    (hvisible : s.locals.lookup "table" = none) (hshown : ∀ c ∈ cards, c.ShownBy s)
    (items : List Value) :
    runLoop (execBlock host (collect target)) ["_", "consumable"] entries (collected s items) =
      some (.next,
        collected s (items ++ (cards.filter target.picks).map HeldConsumable.value)) := by
  induction cards generalizing entries items with
  | nil =>
      obtain rfl := List.map_eq_nil_iff.mp hentries
      rw [List.filter_nil, List.map_nil, List.append_nil]
      rfl
  | cons c cards ih =>
      obtain ⟨⟨k, v⟩, rest, rfl, hv, hrest⟩ := List.map_eq_cons_iff.mp hentries
      obtain rfl : v = c.value := hv
      obtain ⟨hc, hcards⟩ := List.forall_mem_cons.mp hshown
      have hturn : execBlock host (collect target) (turn s items k c.value) = _ :=
        execBlock_collect target hvisible hc items k
      rw [runLoop_of_next hturn, close_turn, ih hrest hcards, List.append_assoc]
      cases hpicks : target.picks c <;> simp [hpicks]

/-- **The collecting loop** leaves a new table with just the consumables that are asked for. -/
theorem exec_collecting (target : ConsumableChoice) {cards : List HeldConsumable} {a : ℕ}
    (hhidden : ∀ name ∈ ["ipairs", "table"], s.locals.lookup name = none)
    (hcards : (collected s []).read "G.consumeables.cards" = some (.table a)) (ha : a < s.fresh)
    (hitems : (s.tables a).items = cards.map HeldConsumable.value)
    (hshown : ∀ c ∈ cards, c.ShownBy s) :
    execBlock host [.letLocal targets (.table []),
        .forItems "_" "consumable" (.path "G.consumeables.cards") (collect target)] s =
      some (.next, collected s ((cards.filter target.picks).map HeldConsumable.value)) := by
  have hlet : (Stmt.letLocal targets (.table [])).exec host s = some (.next, collected s []) := rfl
  have hentries : (indexed ((collected s []).tables a).items).map Prod.snd =
      cards.map HeldConsumable.value := by
    have hmap : cards.map HeldConsumable.value = (cards.map (·.card)).map .table := by
      rw [List.map_map]
      rfl
    have hold : (collected s []).tables a = s.tables a :=
      (s.grows_alloc { items := [] }).tables a ha
    rw [hold, hitems, hmap]
    exact map_snd_indexed _
  have hipairs : (collected s []).locals.lookup "ipairs" = none :=
    (State.lookup_push_of_ne _ _ (by decide)).trans (hhidden "ipairs" (by simp))
  rw [execBlock_cons_of_next hlet, execBlock_singleton, exec_forItems _ _ _ hipairs hcards,
    runLoop_collect target hentries (hhidden "table" (by simp)) hshown, List.nil_append]

end ConsumableRemoval

end JokerScript
